import ProjectCheck.Proofs.Checker.Mypy
import ProjectCheck.Proofs.Checker.Places
import ProjectCheck.Proofs.Checker.Tsc
import ProjectCheck.Proofs.Text.Integers
import ProjectCheck.Proofs.ToolResults

/-!
When an output can be read. A line without a finding does no harm, whatever it holds, and a finding
has all that a diagnostic needs, but for numbers that can be too long. Only such a number makes an
output unreadable, and the first one decides how.
-/
namespace ProjectCheck.Checker

open Text

/-! What lines yield. -/

/-- A line yields what its preferred split says. In the form of mypy that can be a note, which says
nothing. -/
def Form.Yields : Form → List Char → Finding → Prop
  | tsc, line, f => ∃ s : Tsc.Split, s.IsPreferred line ∧ s.finding = f
  | mypy, line, f => ∃ s : Mypy.Split, s.IsPreferred line ∧
      ∃ severity, s.grade = some severity ∧ s.finding severity = f
  | goVet, line, f => ∃ s : GoVet.Split, s.IsPreferred line ∧ s.finding = f
  | pylint, line, f => ∃ s : Pylint.Split, s.IsPreferred line ∧ s.finding = f

inductive Form.Finds (form : Form) : List (List Char) → List Finding → Prop
  | nil : Finds form [] []
  | found {line : List Char} {f : Finding} {lines : List (List Char)} {found : List Finding} :
      form.Yields line f → Finds form lines found → Finds form (line :: lines) (f :: found)
  | silent {line : List Char} {lines : List (List Char)} {found : List Finding} :
      (¬ ∃ f, form.Yields line f) → Finds form lines found → Finds form (line :: lines) found

namespace Form

variable {form : Form} {line : List Char} {lines : List (List Char)} {f : Finding}
  {found : List Finding}

theorem readLine_eq_some_iff : form.readLine line = some f ↔ form.Yields line f := by
  cases form with
  | tsc => exact Tsc.readsBySplit.readLine_eq_some_iff
  | goVet => exact GoVet.readsBySplit.readLine_eq_some_iff
  | pylint => exact Pylint.readsBySplit.readLine_eq_some_iff
  | mypy =>
    constructor
    · intro h
      obtain ⟨s, hs, hgrade, hfinding⟩ := Mypy.exists_isPreferred_of_readLine h
      exact ⟨s, hs, f.severity, hgrade, hfinding⟩
    · rintro ⟨s, hs, severity, hgrade, rfl⟩
      rw [readLine, Mypy.readLine_of_isPreferred hs, hgrade]
      rfl

theorem readLine_eq_none_iff : form.readLine line = none ↔ ¬ ∃ f, form.Yields line f := by
  simp only [Option.eq_none_iff_forall_ne_some, ne_eq, readLine_eq_some_iff, not_exists]

theorem finds_filterMap (form : Form) (lines : List (List Char)) :
    form.Finds lines (lines.filterMap form.readLine) := by
  induction lines with
  | nil => exact .nil
  | cons line lines ih =>
    cases hline : form.readLine line with
    | none =>
      rw [List.filterMap_cons_none hline]
      exact .silent (readLine_eq_none_iff.1 hline) ih
    | some f =>
      rw [List.filterMap_cons_some hline]
      exact .found (readLine_eq_some_iff.1 hline) ih

theorem mem_filterMap_iff : f ∈ lines.filterMap form.readLine ↔
    ∃ line ∈ lines, form.Yields line f := by
  simp only [List.mem_filterMap, readLine_eq_some_iff]

/-- The line of a finding is a number, and so is its column when it has one. -/
theorem Yields.isNumber (h : form.Yields line f) :
    IsNumber f.line ∧ (f.column ≠ [] → IsNumber f.column) := by
  cases form with
  | tsc | goVet | pylint =>
    obtain ⟨s, hs, rfl⟩ := h
    exact ⟨hs.line_number, fun _ => hs.column_number⟩
  | mypy =>
    obtain ⟨s, hs, severity, -, rfl⟩ := h
    refine ⟨hs.line_number, fun hne => ?_⟩
    simp only [Mypy.Split.finding] at hne ⊢
    cases hcolumn : s.column with
    | none => exact absurd (by rw [hcolumn]; rfl) hne
    | some column => exact hs.column_number column hcolumn

end Form

/-! What findings come to. -/

namespace Finding

def tooLong? (f : Finding) : Option Nat :=
  if digitLimit < f.line.length then some f.line.length
  else if digitLimit < f.column.length then some f.column.length
  else none

theorem tooLong?_ne_none_iff (f : Finding) :
    f.tooLong? ≠ none ↔ digitLimit < f.line.length ∨ digitLimit < f.column.length := by
  rw [tooLong?]
  split
  case isTrue hline => simp [hline]
  case isFalse hline => simp [hline]

theorem diagnostic_eq (f : Finding) : f.diagnostic = match f.tooLong? with
    | some count => .error (.tooManyDigits count)
    | none => .ok f.valued := by
  rw [diagnostic, tooLong?, readDigits, readDigits]
  split
  · rfl
  · split <;> rfl

/-- What a run of digits writes, by way of what reads any text as a number. A run that is not there
is nought. -/
def numberOf (run : List Char) : Except Failure Int :=
  if run = [] then .ok 0 else ofIntegerFault (readInteger (String.ofList run))

theorem numberOf_eq {run : List Char} (h : run ≠ [] → IsNumber run) :
    numberOf run = (ofIntegerFault (readDigits run)).map Int.ofNat := by
  by_cases hnone : run = []
  · rw [numberOf, if_pos hnone, hnone]
    rfl
  · rw [numberOf, if_neg hnone, readInteger_digits hnone (h hnone).2]
    cases readDigits run <;> rfl

/-- The diagnostic of a finding has the values of its numbers. -/
theorem eq_valued {f : Finding} {d : Diagnostic} (h : f.diagnostic = .ok d) : d = f.valued := by
  rw [diagnostic_eq] at h
  split at h
  · cases h
  · exact (Except.ok.inj h).symm

/-- The diagnostic of a finding by way of what reads any text as a number and what checks the fields
of any record. -/
def checked (f : Finding) : Except Failure Diagnostic := do
  let line ← ofIntegerFault (readInteger (String.ofList f.line))
  let column ← numberOf f.column
  (Diagnostic.ofFields [
    ("file", .string (String.ofList f.file)), ("line", .int line), ("column", .int column),
    ("severity", .string f.severity.name),
    ("code", f.code.elim .null fun code => .string (String.ofList code)),
    ("message", .string (String.ofList f.message))]).orFail Diagnostic.modelName

/-- The fields pass all checks when the numbers do. -/
theorem checked_eq {f : Finding} (hline : IsNumber f.line)
    (hcolumn : f.column ≠ [] → IsNumber f.column) :
    f.checked = ofIntegerFault f.diagnostic := by
  rw [checked, numberOf_eq hcolumn, readInteger_digits hline.1 hline.2, diagnostic]
  cases readDigits f.line with
  | error fault => rfl
  | ok line =>
    cases readDigits f.column with
    | error fault => rfl
    | ok column =>
      let d : Diagnostic := ⟨String.ofList f.file, line, column, String.ofList f.message,
        f.severity, f.code.map fun code => String.ofList code⟩
      have hcode : Check.optional .string
          (f.code.elim .null fun code => .string (String.ofList code)) = .valid d.code := by
        cases hcoded : f.code <;> simp [d, hcoded, Check.optional, Check.string, Json.asText?,
          Checked.map]
      have htext (s : String) : some (.string s) = some (Json.ofText s) := by
        rw [Json.ofText_ofString]
      refine congrArg (Checked.orFail Diagnostic.modelName) (Diagnostic.ofFields_eq_valid (d := d)
        ?_ rfl rfl ?_ rfl rfl hcode)
      · exact htext (String.ofList f.file)
      · exact htext (String.ofList f.message)

end Finding

/-- What comes of findings: their diagnostics, unless a number of them is too long. The first such
number is what the output fails for. -/
def outcome (tool : String) (found : List Finding) : Except IntegerFault ToolResult :=
  match found.findSome? Finding.tooLong? with
  | some count => .error (.tooManyDigits count)
  | none => .ok (ToolResult.ofDiagnostics (found.map Finding.valued) (some tool))

theorem mapM_diagnostic (found : List Finding) :
    found.mapM Finding.diagnostic = match found.findSome? Finding.tooLong? with
      | some count => .error (.tooManyDigits count)
      | none => .ok (found.map Finding.valued) := by
  induction found with
  | nil => rfl
  | cons f found ih =>
    rw [List.mapM_cons, f.diagnostic_eq, List.findSome?_cons, ih]
    cases f.tooLong? with
    | some count => rfl
    | none => cases found.findSome? Finding.tooLong? <;> rfl

theorem readOutput_eq_outcome (tool : String) (readLine : List Char → Option Finding)
    (output : String) : readOutput tool readLine output =
      outcome tool ((splitLines output.toList).filterMap readLine) := by
  rw [readOutput, mapM_diagnostic, outcome]
  cases ((splitLines output.toList).filterMap readLine).findSome? Finding.tooLong? <;> rfl

theorem outcome_fails_iff {tool : String} {found : List Finding} :
    (∃ fault, outcome tool found = .error fault) ↔
      ∃ f ∈ found, digitLimit < f.line.length ∨ digitLimit < f.column.length := by
  simp only [← Finding.tooLong?_ne_none_iff]
  rw [outcome]
  cases hlong : found.findSome? Finding.tooLong? with
  | none =>
    rw [List.findSome?_eq_none_iff] at hlong
    simpa using hlong
  | some count =>
    obtain ⟨f, hf, hcount⟩ := List.exists_of_findSome?_eq_some hlong
    exact ⟨fun _ => ⟨f, hf, by rw [hcount]; exact Option.some_ne_none _⟩, fun _ => ⟨_, rfl⟩⟩

def checkedOutcome (tool : String) (found : List Finding) : Except Failure ToolResult := do
  let diagnostics ← found.mapM Finding.checked
  (ToolResult.ofDiagnostics diagnostics (some tool)).checkAgreement.orFail ToolResult.modelName

theorem mapM_checked {found : List Finding}
    (h : ∀ f ∈ found, IsNumber f.line ∧ (f.column ≠ [] → IsNumber f.column)) :
    found.mapM Finding.checked = ofIntegerFault (found.mapM Finding.diagnostic) := by
  induction found with
  | nil => rfl
  | cons f found ih =>
    obtain ⟨⟨hline, hcolumn⟩, hfound⟩ := List.forall_mem_cons.1 h
    rw [List.mapM_cons, List.mapM_cons, Finding.checked_eq hline hcolumn, ih hfound]
    cases f.diagnostic with
    | error fault => rfl
    | ok d => cases found.mapM Finding.diagnostic <;> rfl

/-- No check refuses anything but a number that is too long. -/
theorem checkedOutcome_eq {found : List Finding}
    (h : ∀ f ∈ found, IsNumber f.line ∧ (f.column ≠ [] → IsNumber f.column)) (tool : String) :
    checkedOutcome tool found = ofIntegerFault (outcome tool found) := by
  rw [checkedOutcome, mapM_checked h, mapM_diagnostic, outcome]
  cases found.findSome? Finding.tooLong? with
  | some count => rfl
  | none =>
    have hvalid := ToolResult.checkAgreement_eq_valid_iff.2 ⟨rfl,
      ToolResult.isConsistent_ofDiagnostics (found.map Finding.valued) (some tool)⟩
    exact congrArg (Checked.orFail ToolResult.modelName) hvalid

/-- An output comes to what its lines yield, and other lines do no harm. It fails exactly when a
line yields a finding with a number that is too long. Nothing else is ever refused: the digits make
numbers that are not negative, and what is made of them passes every check. -/
theorem Form.fails_only_for_length (form : Form) (output : String) :
    (∃ found, form.Finds (splitLines output.toList) found ∧
      form.read output = outcome form.toolName found ∧
      checkedOutcome form.toolName found = ofIntegerFault (form.read output)) ∧
    ((∃ fault, form.read output = .error fault) ↔
      ∃ line ∈ splitLines output.toList, ∃ f, form.Yields line f ∧
        (digitLimit < f.line.length ∨ digitLimit < f.column.length)) := by
  have hread : form.read output = _ :=
    (form.read_eq output).trans (readOutput_eq_outcome _ _ output)
  constructor
  · refine ⟨_, form.finds_filterMap _, hread, ?_⟩
    rw [hread]
    apply checkedOutcome_eq
    intro f hf
    obtain ⟨line, -, hyields⟩ := mem_filterMap_iff.1 hf
    exact hyields.isNumber
  · rw [hread, outcome_fails_iff]
    simp only [mem_filterMap_iff]
    constructor
    · rintro ⟨f, ⟨line, hline, hf⟩, hlong⟩
      exact ⟨line, hline, f, hf, hlong⟩
    · rintro ⟨line, hline, f, hf, hlong⟩
      exact ⟨f, ⟨line, hline, hf⟩, hlong⟩

/-- All tools but cargo print lines of a form. -/
theorem exists_form {tool : Tool} (h : tool ≠ .cargo) :
    ∃ form : Form, tool.readLine = reading form.readLine := by
  cases tool with
  | tsc => exact ⟨.tsc, rfl⟩
  | goVet => exact ⟨.goVet, rfl⟩
  | cargo => exact absurd rfl h
  | mypy => exact ⟨.mypy, rfl⟩
  | pylint => exact ⟨.pylint, rfl⟩

end ProjectCheck.Checker
