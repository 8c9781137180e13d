import Mathlib.Data.List.Forall2
import ProjectCheck.Checker.Cargo
import ProjectCheck.Proofs.Validation
import ProjectCheck.Proofs.Json.Spelling
import ProjectCheck.Proofs.Text.Lines

/-!
Outputs with one record a line, among lines that are no JSON. Each compiler message of an error or a
warning with a primary span is read back as one diagnostic, in the same order and with every text
unchanged; all other records and lines say nothing. A record is only found where its line is not
split: a string may hold line ends that need no escape, and a record with one of them is lost.
-/
namespace ProjectCheck.Checker.Cargo

open Text Json

/-! What a record says. -/

def IsPrimary (span : Json) : Prop :=
  ∃ flag, span.get? "is_primary" = some flag ∧ flag.isTruthy = true

structure Concerns (record : Json) (message : Members Json) (severity : Severity)
    (span : Members Json) : Prop where
  reason : record.get? "reason" = some (.string "compiler-message")
  message_eq : record.get? "message" = some (.object message)
  level : message.get? "level" = some (.string severity.name)
  primary : ∃ before after, message.get? "spans" = some (.array (before ++ .object span :: after)) ∧
    IsPrimary (.object span) ∧ ∀ other ∈ before, ¬ IsPrimary other

def HasCode (message : Members Json) : Option LooseText → Prop
  | some code => code ≠ [] ∧ ∃ fields : Members Json,
      message.get? "code" = some (.object fields) ∧ fields.get? "code" = some (.ofText code)
  | none => message.get? "code" = none ∨ message.get? "code" = some .null ∨
      ∃ fields : Members Json, message.get? "code" = some (.object fields) ∧
        (fields.get? "code" = none ∨ fields.get? "code" = some .null ∨
          fields.get? "code" = some (.string ""))

def Reports (record : Json) (d : Diagnostic) : Prop :=
  ∃ message span, Concerns record message d.severity span ∧
    span.get? "file_name" = some (.ofText d.file) ∧
    span.get? "line_start" = some (.int d.line) ∧ span.get? "column_start" = some (.int d.column) ∧
    message.get? "message" = some (.ofText d.message) ∧ HasCode message d.code

def primaryFields? : Json → Option (Members Json)
  | .object fields =>
    if (Members.get? "is_primary" fields).any Json.isTruthy then some fields else none
  | _ => none

theorem primaryFields?_eq_some {span : Json} {fields : Members Json} :
    primaryFields? span = some fields ↔ span = .object fields ∧ IsPrimary span := by
  cases span with
  | object found =>
    simp only [primaryFields?, Option.ite_none_right_eq_some, Option.any_eq_true, Option.some.injEq,
      Json.object.injEq, IsPrimary, Json.get?]
    exact and_comm
  | _ => simp [primaryFields?]

theorem primaryFields?_eq_none {span : Json} : primaryFields? span = none ↔ ¬ IsPrimary span := by
  constructor
  · rintro hnone hprimary
    obtain ⟨flag, hflag, -⟩ := id hprimary
    cases span with
    | object fields => cases hnone.symm.trans (primaryFields?_eq_some.2 ⟨rfl, hprimary⟩)
    | _ => cases hflag
  · intro hnot
    cases hfields : primaryFields? span with
    | none => rfl
    | some fields => exact absurd (primaryFields?_eq_some.1 hfields).2 hnot

theorem primarySpan?_eq_some {spans : Json} {span : Members Json} :
    primarySpan? spans = some span ↔ ∃ before after,
      spans = .array (before ++ .object span :: after) ∧ IsPrimary (.object span) ∧
        ∀ other ∈ before, ¬ IsPrimary other := by
  cases spans with
  | array items =>
    change items.findSome? primaryFields? = some span ↔ _
    simp only [List.findSome?_eq_some_iff, primaryFields?_eq_some, primaryFields?_eq_none]
    constructor
    · rintro ⟨before, _, after, rfl, ⟨rfl, hprimary⟩, hbefore⟩
      exact ⟨before, after, rfl, hprimary, hbefore⟩
    · rintro ⟨before, after, ⟨rfl⟩, hprimary, hbefore⟩
      exact ⟨before, _, after, rfl, ⟨rfl, hprimary⟩, hbefore⟩
  | _ => simp [primarySpan?]

theorem level?_eq_some {message : Members Json} {severity : Severity} :
    level? message = some severity ↔ message.get? "level" = some (.string severity.name) := by
  have hname : ∀ s, Severity.ofName? s = some severity ↔ s = severity.name := by
    intro s
    constructor
    · intro h
      rw [Severity.ofName?.eq_def] at h
      split at h <;> cases h <;> rfl
    · rintro rfl
      exact severity.ofName?_name
  simp only [level?, Option.bind_eq_some_iff, hname]
  constructor
  · rintro ⟨text, ⟨value, hvalue, htext⟩, rfl⟩
    cases value <;> cases htext
    exact hvalue
  · intro h
    exact ⟨_, ⟨_, h, rfl⟩, rfl⟩

theorem compilerMessage?_eq_some {record : Json} {message : Members Json} :
    compilerMessage? record = some message ↔
      record.get? "reason" = some (.string "compiler-message") ∧
        record.get? "message" = some (.object message) := by
  cases record with
  | object members =>
    simp only [compilerMessage?, asObject?, Json.get?, Option.bind_eq_bind, Option.bind_some]
    constructor
    · intro h
      obtain ⟨reason, hreason, h⟩ := Option.bind_eq_some_iff.1 h
      obtain ⟨value, hvalue, htext⟩ := Option.bind_eq_some_iff.1 hreason
      by_cases heq : reason = "compiler-message"
      · subst heq
        rw [if_neg (not_not_intro rfl)] at h
        obtain ⟨found, hfound, hobject⟩ := Option.bind_eq_some_iff.1 h
        cases value <;> cases htext
        cases found <;> cases hobject
        exact ⟨hvalue, hfound⟩
      · rw [if_pos heq] at h
        cases h
    · rintro ⟨hreason, hmessage⟩
      simp [hreason, hmessage, asString?, asObject?]
  | _ => simp [compilerMessage?, asObject?, Json.get?]

def concern? (record : Json) : Option (Members Json × Severity × Members Json) := do
  let message ← compilerMessage? record
  let severity ← level? message
  let span ← primarySpan? ((message.get? "spans").getD .null)
  return (message, severity, span)

theorem concern?_eq_some {record : Json} {message span : Members Json} {severity : Severity} :
    concern? record = some (message, severity, span) ↔ Concerns record message severity span := by
  have hspans : primarySpan? ((message.get? "spans").getD .null) = some span ↔
      ∃ before after, message.get? "spans" = some (.array (before ++ .object span :: after)) ∧
        IsPrimary (.object span) ∧ ∀ other ∈ before, ¬ IsPrimary other := by
    rw [primarySpan?_eq_some]
    cases message.get? "spans" <;> simp
  simp only [concern?, Option.bind_eq_bind, Option.bind_eq_some_iff, Option.pure_def,
    Option.some.injEq, Prod.mk.injEq]
  constructor
  · rintro ⟨_, hmessage, _, hlevel, _, hspan, rfl, rfl, rfl⟩
    obtain ⟨hreason, heq⟩ := compilerMessage?_eq_some.1 hmessage
    exact ⟨hreason, heq, level?_eq_some.1 hlevel, hspans.1 hspan⟩
  · rintro ⟨hreason, heq, hlevel, hspan⟩
    exact ⟨message, compilerMessage?_eq_some.2 ⟨hreason, heq⟩, severity, level?_eq_some.2 hlevel,
      span, hspans.2 hspan, rfl, rfl, rfl⟩

theorem ofRecord_eq (record : Json) : ofRecord record =
    match concern? record with
    | none => .ok none
    | some (message, severity, span) => (diagnosticOf message severity span).map some := rfl

theorem HasCode.checked {message : Members Json} {code : Option LooseText}
    (h : HasCode message code) : Check.optional Check.string (codeOf message) = .valid code := by
  cases code with
  | some code =>
    obtain ⟨hne, fields, hfields, hcode⟩ := h
    have hcodeOf : codeOf message = .ofText code := by
      simp [codeOf, hfields, hcode, (isTruthy_ofText code).2 hne]
    rw [hcodeOf]
    exact Check.optional_string (some code)
  | none =>
    have hnull : codeOf message = .null := by
      obtain hnone | hnull | ⟨fields, hfields, hnone | hnull | hempty⟩ := h
      · simp [codeOf, hnone]
      · simp [codeOf, hnull]
      · simp [codeOf, hfields, hnone, isTruthy]
      · simp [codeOf, hfields, hnull, isTruthy]
      · simp [codeOf, hfields, hempty, isTruthy]
    rw [hnull]
    rfl

theorem Reports.ofRecord {record : Json} {d : Diagnostic} (h : Reports record d) :
    ofRecord record = .ok (some d) := by
  obtain ⟨message, span, hconcerns, hfile, hline, hcolumn, htext, hcode⟩ := h
  have hvalid : diagnosticOf message d.severity span = .ok d := by
    simp only [diagnosticOf, hfile, hline, hcolumn, htext, Option.getD_some, toInteger,
      toText_ofText]
    change (Checked.orFail _ (Diagnostic.ofFields _)) = _
    rw [Diagnostic.ofFields_eq_valid rfl rfl rfl rfl rfl rfl hcode.checked]
    rfl
  rw [ofRecord_eq, concern?_eq_some.2 hconcerns]
  simp only [hvalid]
  rfl

/-- A record that is about nothing says nothing. -/
theorem ofRecord_eq_none {record : Json}
    (h : ∀ message severity span, ¬ Concerns record message severity span) :
    ofRecord record = .ok none := by
  rw [ofRecord_eq]
  cases hconcern : concern? record with
  | none => rfl
  | some found =>
    obtain ⟨message, severity, span⟩ := found
    exact absurd (concern?_eq_some.1 hconcern) (h message severity span)

/-! What a line says. -/

def IsSeparator (c : Char) : Prop := c = '\x85' ∨ c = '\u2028' ∨ c = '\u2029'

instance (c : Char) : Decidable (IsSeparator c) :=
  inferInstanceAs (Decidable (c = '\x85' ∨ c = '\u2028' ∨ c = '\u2029'))

structure IsRecordLine (record : Members Json) (line : List Char) : Prop where
  spells : Spells depthLimit (.value (.object record)) line
  unsplit : ∀ c ∈ line, ¬ IsSeparator c

theorem IsRecordLine.isLine {record : Members Json} {line : List Char}
    (h : IsRecordLine record line) : IsLine line := by
  intro c hc
  have hcode : ∀ d : Char, c.toNat = d.toNat → c = d := fun _ => Char.toNat_inj.1
  have hseparator := h.unsplit c hc
  simp only [IsSeparator, not_or] at hseparator
  obtain rfl | hcontrol := h.spells.noControl c hc
  · decide
  simp only [isLineEnd, Bool.or_eq_false_iff, Bool.and_eq_false_iff, decide_eq_false_iff_not,
    beq_eq_false_iff_ne]
  refine ⟨⟨⟨⟨by omega, by omega⟩, ?_⟩, ?_⟩, ?_⟩
  · exact fun heq => hseparator.1 (hcode _ heq)
  · exact fun heq => hseparator.2.1 (hcode _ heq)
  · exact fun heq => hseparator.2.2 (hcode _ heq)

/-- An object stands between its braces. -/
theorem spells_object {depth : Nat} {record : Members Json} {text : List Char}
    (h : Spells depth (.value (.object record)) text) :
    ∃ inner, text = '{' :: (inner ++ ['}']) := by
  generalize hpart : Part.value (.object record) = part at h
  cases h with
  | emptyObject => exact ⟨_, rfl⟩
  | object => exact ⟨_, rfl⟩
  | @number _ t v _ _ hvalue _ =>
    cases hpart
    rw [NumberText.value] at hvalue
    split at hvalue
    · split at hvalue <;> cases hvalue
    · cases hvalue
  | _ => cases hpart

theorem IsRecordLine.trimBlanks_eq {record : Members Json} {line : List Char}
    (h : IsRecordLine record line) : trimBlanks line = line := by
  obtain ⟨inner, rfl⟩ := spells_object h.spells
  have hopen : isBlank '{' = false := by decide
  have hclose : isBlank '}' = false := by decide
  simp [trimBlanks, dropBlanks, hopen, hclose]

theorem IsRecordLine.readLine {record : Members Json} {line : List Char}
    (h : IsRecordLine record line) : readLine line = ofRecord (.object record) := by
  obtain ⟨inner, hline⟩ := spells_object h.spells
  have hempty : line.isEmpty = false := by rw [hline]; rfl
  have hparse : Json.parse (String.ofList line) = .ok (.object record) := by
    rw [Json.parse, Json.read, String.toList_ofList, readChars_of_spells h.spells]
  simp only [Cargo.readLine, h.trimBlanks_eq, hempty, hparse]
  rfl

structure IsProgress (line : List Char) : Prop where
  isLine : IsLine line
  noJson : readChars (trimBlanks line) = .error .malformed

theorem readLine_of_malformed {line : List Char}
    (h : readChars (trimBlanks line) = .error .malformed) : readLine line = .ok none := by
  have hparse : Json.parse (String.ofList (trimBlanks line)) = .error .malformedJson := by
    rw [Json.parse, Json.read, String.toList_ofList, h]
  simp only [readLine, hparse, ite_self]

theorem IsProgress.readLine {line : List Char} (h : IsProgress line) : readLine line = .ok none :=
  readLine_of_malformed h.noJson

inductive Tells : List Char → Option Diagnostic → Prop
  | finding {record : Members Json} {line : List Char} {d : Diagnostic} :
      IsRecordLine record line → Reports (.object record) d → Tells line (some d)
  | other {record : Members Json} {line : List Char} : IsRecordLine record line →
      (∀ message severity span, ¬ Concerns (.object record) message severity span) →
      Tells line none
  | progress {line : List Char} : IsProgress line → Tells line none

theorem Tells.isLine {line : List Char} {found : Option Diagnostic} (h : Tells line found) :
    IsLine line := by
  cases h with
  | finding hrecord _ | other hrecord _ => exact hrecord.isLine
  | progress hprogress => exact hprogress.isLine

theorem Tells.readLine {line : List Char} {found : Option Diagnostic} (h : Tells line found) :
    readLine line = .ok found := by
  cases h with
  | finding hrecord hreports => rw [hrecord.readLine, hreports.ofRecord]
  | other hrecord hnone => rw [hrecord.readLine, ofRecord_eq_none hnone]
  | progress hprogress => exact hprogress.readLine

/-- An output of such lines, with the usual line ends in any mixture, gives the diagnostics of its
records in their order. -/
theorem read_records {lines : List (List Char)} {found : List (Option Diagnostic)}
    {output : String} (hlines : List.Forall₂ Tells lines found)
    (houtput : Laid (· ≠ .ret) lines output.toList) :
    read output = .ok (ToolResult.ofDiagnostics (found.filterMap id) (some toolName)) := by
  have hwhole : ∀ line ∈ lines, IsLine line := by
    clear houtput
    induction hlines with
    | nil => simp
    | cons hfirst _ ih => exact List.forall_mem_cons.2 ⟨hfirst.isLine, ih⟩
  have hread : lines.mapM Cargo.readLine = .ok found := by
    clear houtput hwhole
    induction hlines with
    | nil => rfl
    | cons hfirst _ ih =>
      rw [List.mapM_cons, hfirst.readLine, ih]
      rfl
  rw [read, splitLines_laid houtput hwhole fun hret => absurd rfl hret, hread]
  rfl

/-! Records and other lines, and a record that is split. -/

def isMalformed (text : List Char) : Bool :=
  match readChars text with
  | .error .malformed => true
  | _ => false

theorem eq_malformed {text : List Char} (h : isMalformed text = true) :
    readChars text = .error .malformed := by
  rw [isMalformed] at h
  split at h
  · assumption
  · cases h

def recordOf (d : Diagnostic) : Members Json := [
  ("reason", .string "compiler-message"),
  ("message", .object [
    ("message", .ofText d.message), ("level", .string d.severity.name),
    ("code", .object [("code", .ofText (d.code.getD [])), ("explanation", .null)]),
    ("spans", .array [
      .object [("file_name", .string "src/macros.rs"), ("is_primary", .bool false)],
      .object [("file_name", .ofText d.file), ("is_primary", .bool true),
        ("line_start", .int d.line), ("column_start", .int d.column)]])])]

theorem reports_recordOf {d : Diagnostic} (h : d.code ≠ some []) :
    Reports (.object (recordOf d)) d := by
  refine ⟨_, _, ⟨rfl, rfl, rfl, [_], [], rfl, ⟨_, rfl, rfl⟩, ?_⟩, rfl, rfl, rfl, rfl, ?_⟩
  · rintro other hother ⟨flag, hflag, htruthy⟩
    rw [List.mem_singleton.1 hother] at hflag
    cases hflag
    cases htruthy
  · cases hcode : d.code with
    | none => exact .inr (.inr ⟨_, rfl, .inr (.inr rfl)⟩)
    | some code => exact ⟨fun heq => h (by rw [hcode, heq]), _, rfl, rfl⟩

def mismatchedTypes (message : String) : Diagnostic where
  file := "src/größe.rs"
  line := 3
  column := 5
  message := message
  severity := .error
  code := some "E0308"

/-- Two records among other lines, with different line ends. -/
theorem read_records_mismatchedTypes :
    read (Json.write (.object (recordOf (mismatchedTypes "expected \"é\"\nfound 1"))) ++ "\r\n" ++
        ("    Finished dev" ++ "\n" ++
          Json.write (.object [("reason", .string "build-finished")]))) =
      .ok (ToolResult.ofDiagnostics [mismatchedTypes "expected \"é\"\nfound 1"]
        (some "cargo")) := by
  have hfinding : Tells
      (writeChars (.object (recordOf (mismatchedTypes "expected \"é\"\nfound 1"))))
      (some (mismatchedTypes "expected \"é\"\nfound 1")) :=
    .finding ⟨spells_writeChars _ _ (by decide +kernel), forall_mem_of_all (by decide +kernel)⟩
      (reports_recordOf (by decide))
  have hprogress : Tells "    Finished dev".toList none :=
    .progress ⟨by decide +kernel, eq_malformed (by decide +kernel)⟩
  have hother : Tells (writeChars (.object [("reason", .string "build-finished")])) none := by
    refine .other
      ⟨spells_writeChars _ _ (by decide +kernel), forall_mem_of_all (by decide +kernel)⟩ ?_
    rintro message severity span ⟨hreason, -, -, -⟩
    revert hreason
    simp [Json.get?, Members.get?]
  refine read_records (.cons hfinding (.cons hprogress (.cons hother .nil))) ?_
  have hreturn : "\r\n".toList = LineEnd.returnFeed.chars := by decide +kernel
  have hfeed : "\n".toList = LineEnd.feed.chars := by decide +kernel
  simp only [String.toList_append, Json.write, String.toList_ofList, List.append_assoc, hreturn,
    hfeed]
  exact .ended .returnFeed (by decide) (.ended .feed (by decide) (.unended (by decide +kernel)))

/-- A line separator needs no escape in a message, but it splits the record. -/
theorem read_separated :
    Spells depthLimit (.value (.object (recordOf (mismatchedTypes "expected\u2028found"))))
        (writeChars (.object (recordOf (mismatchedTypes "expected\u2028found")))) ∧
      Reports (.object (recordOf (mismatchedTypes "expected\u2028found")))
        (mismatchedTypes "expected\u2028found") ∧
      read (Json.write (.object (recordOf (mismatchedTypes "expected\u2028found")))) =
        .ok (ToolResult.ofDiagnostics [] (some "cargo")) := by
  refine ⟨spells_writeChars _ _ (by decide +kernel), reports_recordOf (by decide), ?_⟩
  have hsplit : (splitLines (writeChars (.object
      (recordOf (mismatchedTypes "expected\u2028found"))))).map
        (isMalformed <| trimBlanks ·) = [true, true] := by decide +kernel
  rw [read, Json.write, String.toList_ofList]
  generalize splitLines _ = pieces at hsplit
  obtain ⟨first, rest, rfl, hfirst, hrest⟩ := List.map_eq_cons_iff.1 hsplit
  obtain ⟨second, rest, rfl, hsecond, hrest⟩ := List.map_eq_cons_iff.1 hrest
  obtain rfl := List.map_eq_nil_iff.1 hrest
  rw [List.mapM_cons, List.mapM_cons, readLine_of_malformed (eq_malformed hfirst),
    readLine_of_malformed (eq_malformed hsecond)]
  rfl

end ProjectCheck.Checker.Cargo
