import ProjectCheck.Checker.GoVet
import ProjectCheck.Checker.Mypy
import ProjectCheck.Checker.Pylint
import ProjectCheck.Checker.Tsc
import ProjectCheck.Proofs.Checker.Written

/-!
The forms in which checkers write diagnostics. What was written is read back, in the same order and
with every text unchanged. A form leaves open at which place of a line a part ends, so the parts
have to be such that no other place will do.
-/
namespace ProjectCheck.Checker

open Text

/-! Marks between the parts of a line. -/

theorem isDigit_colon : isDigit ':' = false := by decide
theorem isLineEnd_colon : isLineEnd ':' = false := by decide
theorem isLineEnd_space : isLineEnd ' ' = false := by decide

/-! The lines of go vet. -/

namespace GoVet

structure Fits (d : Diagnostic) : Prop extends Printable d where
  named : ∃ stem, IsNamed [".go".toList] d.file.shown stem ".go".toList
  message_start : Stops isBlank d.message.shown
  severity_eq : d.severity = .warning
  code_eq : d.code = none

theorem prefix_of_readRest? (s : List Char) (rest : Rest) (h : readRest? s = some rest) :
    ∃ e ∈ [".go".toList], e ++ [':'] <+: s := by
  simp only [readRest?, Option.bind_eq_bind, Option.bind_eq_some_iff] at h
  obtain ⟨after, hafter, -⟩ := h
  exact ⟨_, List.mem_cons_self .., after, (after?_eq_some hafter).symm⟩

theorem distinct : Distinct [".go".toList] := ⟨by decide, by decide⟩

theorem toList_writeLine (d : Diagnostic) :
    (writeLine d).toList = d.file.shown ++ ':' :: (Nat.toDigits 10 d.line ++ ':' ::
      (Nat.toDigits 10 d.column ++ ':' :: ([' '] ++ d.message.shown))) := by
  simp [writeLine, LooseText.toList_toString, toString_string, Nat.toString_eq_repr, Nat.repr]

/-- The parts that were put together are read, whatever blanks stand before the message. -/
theorem readRest?_parts {line column said message : List Char} (hline : IsNumber line)
    (hcolumn : IsNumber column) (hsaid : messageAfterBlanks? said = some message) :
    readRest? (".go".toList ++ ':' :: (line ++ ':' :: (column ++ ':' :: said))) =
      some ⟨line, column, message⟩ := by
  have hafter := after?_append ".go:".toList (line ++ ':' :: (column ++ ':' :: said))
  have htext : ".go".toList ++ ':' :: (line ++ ':' :: (column ++ ':' :: said)) =
    ".go:".toList ++ (line ++ ':' :: (column ++ ':' :: said)) := rfl
  simp only [readRest?, htext, hafter, Option.bind_eq_bind, Option.bind_some,
    numberThen?_append hline isDigit_colon, numberThen?_append hcolumn isDigit_colon, hsaid]
  rfl

theorem isRead_writeLine {d : Diagnostic} (h : Fits d) :
    IsRead readLine d (writeLine d).toList := by
  obtain ⟨stem, hnamed⟩ := h.named
  have hrest := readRest?_parts (isNumber_toDigits d.line) (isNumber_toDigits d.column)
    (messageAfterBlanks?_append isGap_space h.message_ne h.message_start)
  rw [toList_writeLine]
  refine ⟨?_, by simp, findingOf d (Nat.toDigits 10 d.column), ?_,
    h.diagnostic_findingOf (.inl rfl)⟩
  · simp [isLine_toDigits, h.file_line, h.message_line, isLineEnd_colon, isLineEnd_space]
  · have hsplit := hnamed.split distinct prefix_of_readRest? hrest
    rw [readLine, hsplit]
    simp only [Option.bind_eq_bind, Option.bind_some, findingOf, h.severity_eq, h.code_eq,
      hnamed.file_eq]
    rfl

end GoVet

/-! The lines of pylint. -/

namespace Pylint

structure Fits (d : Diagnostic) : Prop extends Printable d where
  named : ∃ stem, IsNamed [".py".toList] d.file.shown stem ".py".toList
  coded : ∃ letter number, letter.isUpper = true ∧ IsNumber number ∧
    d.code = some (LooseText.ofString (String.ofList (letter :: number))) ∧
      d.severity = severityOf letter

theorem prefix_of_readRest? (s : List Char) (rest : Rest) (h : readRest? s = some rest) :
    ∃ e ∈ [".py".toList], e ++ [':'] <+: s := by
  simp only [readRest?, Option.bind_eq_bind, Option.bind_eq_some_iff] at h
  obtain ⟨after, hafter, -⟩ := h
  exact ⟨_, List.mem_cons_self .., after, (after?_eq_some hafter).symm⟩

theorem distinct : Distinct [".py".toList] := ⟨by decide, by decide⟩

theorem toList_writeLine (d : Diagnostic) {letter : Char} {number : List Char}
    (hcode : d.code = some (LooseText.ofString (String.ofList (letter :: number)))) :
    (writeLine d).toList = d.file.shown ++ ':' :: (Nat.toDigits 10 d.line ++ ':' ::
      (Nat.toDigits 10 d.column ++ ':' :: ([' '] ++ letter :: (number ++ ':' ::
        ([' '] ++ d.message.shown))))) := by
  simp [writeLine, LooseText.toList_toString, toString_string, Nat.toString_eq_repr, Nat.repr,
    hcode]

theorem readRest?_append {line column number message : List Char} {letter : Char}
    (hline : IsNumber line) (hcolumn : IsNumber column) (hletter : letter.isUpper = true)
    (hnumber : IsNumber number) (hne : message ≠ []) :
    readRest? (".py".toList ++ ':' :: (line ++ ':' :: (column ++ ':' :: ([' '] ++
      letter :: (number ++ ':' :: ([' '] ++ message)))))) =
      some ⟨line, column, letter, number, message⟩ := by
  have hafter := after?_append ".py:".toList (line ++ ':' :: (column ++ ':' :: ([' '] ++
    letter :: (number ++ ':' :: ([' '] ++ message)))))
  have htext : ∀ rest, ".py".toList ++ ':' :: rest = ".py:".toList ++ rest := fun _ => rfl
  simp only [readRest?, htext, hafter, Option.bind_eq_bind, Option.bind_some,
    numberThen?_append hline isDigit_colon, numberThen?_append hcolumn isDigit_colon,
    after?_append, capital?, if_pos hletter, numberThen?_append hnumber isDigit_colon,
    List.isEmpty_eq_false_iff.2 hne]
  rfl

theorem isRead_writeLine {d : Diagnostic} (h : Fits d) :
    IsRead readLine d (writeLine d).toList := by
  obtain ⟨stem, hnamed⟩ := h.named
  obtain ⟨letter, number, hletter, hnumber, hcode, hseverity⟩ := h.coded
  have hrest := readRest?_append (isNumber_toDigits d.line) (isNumber_toDigits d.column) hletter
    hnumber h.message_ne
  have hcodeLine := h.code_line _ hcode
  rw [toList_writeLine d hcode]
  refine ⟨?_, by simp, findingOf d (Nat.toDigits 10 d.column), ?_,
    h.diagnostic_findingOf (.inl rfl)⟩
  · rw [LooseText.shown_ofString, String.toList_ofList, isLine_cons] at hcodeLine
    simp [isLine_toDigits, h.file_line, h.message_line, hcodeLine, isLineEnd_colon,
      isLineEnd_space]
  · have hsplit := hnamed.split distinct prefix_of_readRest? hrest
    rw [readLine, hsplit]
    simp only [Option.bind_eq_bind, Option.bind_some, findingOf, hseverity, hcode,
      hnamed.file_eq, Option.map_some, LooseText.shown_ofString, String.toList_ofList]
    rfl

end Pylint

/-! The lines of mypy. -/

namespace Mypy

def extensions : List (List Char) := [".py".toList, ".pyi".toList]

def codeText : Option (List Char) → List Char
  | none => []
  | some code => [' ', ' '] ++ '[' :: (code ++ [']'])

/-- What the form asks of a diagnostic. A message with a code after it does not end in a blank, and
a bracket that opens after a blank is closed in it, unless nothing stands before that blank. A
message without a code does not itself end in a code. -/
structure Fits (d : Diagnostic) : Prop extends Printable d where
  named : ∃ stem extension, IsNamed extensions d.file.shown stem extension
  code_ne : ∀ code, d.code = some code → code.shown ≠ [] ∧ ']' ∉ code.shown
  coded_end : d.code ≠ none → ∀ c, d.message.shown.getLast? = some c → isBlank c = false
  coded_brackets : d.code ≠ none → ∀ before blank after, before ≠ [] → isBlank blank = true →
    d.message.shown = before ++ blank :: '[' :: after → ']' ∈ after
  uncoded : d.code = none → ∀ before gap code, before ≠ [] → IsGap gap → code ≠ [] →
    ']' ∉ code → d.message.shown ≠ before ++ (gap ++ '[' :: (code ++ [']']))

theorem afterExtension?_append {extension : List Char} (h : extension ∈ extensions)
    (rest : List Char) : afterExtension? (extension ++ ':' :: rest) = some (':' :: rest) := by
  simp only [extensions, List.mem_cons, List.not_mem_nil, or_false] at h
  rcases h with rfl | rfl <;> rfl

theorem eq_of_afterExtension? {s rest : List Char} (h : afterExtension? s = some rest) :
    ∃ e ∈ extensions, s = e ++ rest := by
  simp only [afterExtension?, Option.bind_eq_bind, Option.bind_eq_some_iff] at h
  obtain ⟨after, hafter, hrest⟩ := h
  cases hi : after? ['i'] after with
  | none =>
    rw [hi] at hrest
    cases hrest
    exact ⟨".py".toList, by decide, after?_eq_some hafter⟩
  | some other =>
    rw [hi] at hrest
    cases hrest
    refine ⟨".pyi".toList, by decide, ?_⟩
    rw [after?_eq_some hafter, after?_eq_some hi]
    rfl

theorem prefix_of_readRest? (s : List Char) (rest : List Char × Rest)
    (h : readRest? s = some rest) : ∃ e ∈ extensions, e ++ [':'] <+: s := by
  simp only [readRest?, Option.bind_eq_bind, Option.bind_eq_some_iff] at h
  obtain ⟨afterFile, hfile, after, hafter, -⟩ := h
  obtain ⟨e, he, rfl⟩ := eq_of_afterExtension? hfile
  refine ⟨e, he, after, ?_⟩
  rw [after?_eq_some hafter, List.append_assoc]

theorem distinct : Distinct extensions := ⟨by decide, by decide⟩

/-! The code. -/

theorem codeAtEnd?_append {gap code : List Char} (hgap : IsGap gap) (hne : code ≠ [])
    (hclosed : ']' ∉ code) : codeAtEnd? (gap ++ '[' :: (code ++ [']'])) = some (some code) := by
  have hstops : Stops isBlank ('[' :: (code ++ [']'])) := Stops.cons (by decide)
  have hblanks := afterBlanks?_append hgap hstops
  have hbracket := after?_append ['['] (code ++ [']'])
  have hrun : (code ++ [']']).takeWhile (· ≠ ']') = code := by
    refine takeWhile_run (fun c hc => ?_) (Stops.cons (by decide))
    have : c ≠ ']' := fun heq => hclosed (heq ▸ hc)
    simpa using this
  rw [codeAtEnd?, if_neg (by simp), hblanks]
  simp only [Option.bind_eq_bind, Option.bind_some,
    show '[' :: (code ++ [']']) = ['['] ++ (code ++ [']']) from rfl, hbracket, hrun,
    List.drop_left, List.isEmpty_eq_false_iff.2 hne]
  rfl

theorem codeAtEnd?_codeText {code : Option (List Char)}
    (h : ∀ c, code = some c → c ≠ [] ∧ ']' ∉ c) : codeAtEnd? (codeText code) = some code := by
  cases code with
  | none => rfl
  | some code =>
    obtain ⟨hne, hclosed⟩ := h code rfl
    exact codeAtEnd?_append ⟨nofun, List.all_eq_true.1 (by decide)⟩ hne hclosed

/-- What is read as a code at the end of a line is one, or nothing. -/
theorem codeAtEnd?_eq_some {s : List Char} {found : Option (List Char)}
    (h : codeAtEnd? s = some found) :
    (s = [] ∧ found = none) ∨ ∃ gap code, IsGap gap ∧ code ≠ [] ∧ ']' ∉ code ∧
      s = gap ++ '[' :: (code ++ [']']) ∧ found = some code := by
  rw [codeAtEnd?] at h
  split at h
  case isTrue hempty => exact .inl ⟨List.isEmpty_iff.1 hempty, (Option.some.inj h).symm⟩
  case isFalse =>
    simp only [Option.bind_eq_bind, Option.bind_eq_some_iff] at h
    obtain ⟨after, hblanks, inner, hbracket, hcode⟩ := h
    obtain ⟨gap, hgap, rfl⟩ := afterBlanks?_eq_some hblanks
    rw [after?_eq_some hbracket] at *
    split at hcode
    case isTrue => cases hcode
    case isFalse hrun =>
      obtain rfl := Option.some.inj hcode
      simp only [Bool.or_eq_true, decide_eq_true_eq, not_or, List.isEmpty_iff, not_not] at hrun
      have hclosed : ']' ∉ inner.takeWhile (· ≠ ']') := by
        intro hmem
        have := List.all_eq_true.1 (List.all_takeWhile ..) _ hmem
        simp at this
      obtain ⟨last, hlast⟩ := List.takeWhile_prefix (l := inner) (· ≠ ']')
      generalize inner.takeWhile (· ≠ ']') = code at *
      rw [← hlast, List.drop_left] at hrun
      exact .inr ⟨gap, code, hgap, hrun.1, hclosed, by rw [← hlast, hrun.2]; rfl, rfl⟩

/-- A gap and a bracket before the code of a line: the gap reaches up to the code's own gap, or the
bracket opens earlier. -/
theorem gap_cases {t gap own code : List Char}
    (h : t ++ ([' ', ' '] ++ '[' :: own) = gap ++ '[' :: code) :
    (∃ u, gap = t ++ u) ∨ ∃ after, t = gap ++ '[' :: after ∧ after ⊆ code := by
  rcases List.append_eq_append_iff.1 h with ⟨u, hgap, -⟩ | ⟨u, ht, hopens⟩
  · exact .inl ⟨u, hgap⟩
  · cases u with
    | nil => simp at hopens
    | cons c after =>
      obtain ⟨rfl, rfl⟩ := List.cons.inj hopens
      exact .inr ⟨after, ht, fun c hc => List.mem_append_left _ hc⟩

/-- No code begins inside the message. -/
theorem Fits.codeAtEnd?_eq_none {d : Diagnostic} (h : Fits d) {t : List Char} (hne : t ≠ [])
    (ht : t <:+ d.message.shown.tail) :
    codeAtEnd? (t ++ codeText (d.code.map LooseText.shown)) = none := by
  obtain ⟨before, hbefore, hmessage⟩ : ∃ before, before ≠ [] ∧ d.message.shown = before ++ t := by
    obtain ⟨before, hbefore⟩ := ht
    obtain ⟨c, rest, hcons⟩ := List.exists_cons_of_ne_nil h.message_ne
    rw [hcons, List.tail_cons] at hbefore
    exact ⟨c :: before, by simp, by rw [hcons, ← hbefore, List.cons_append]⟩
  cases hread : codeAtEnd? (t ++ codeText (d.code.map LooseText.shown)) with
  | none => rfl
  | some found =>
    exfalso
    rcases codeAtEnd?_eq_some hread with ⟨hnil, -⟩ | ⟨gap, code, hgap, hcode, hclosed, heq, -⟩
    · exact hne (List.append_eq_nil_iff.1 hnil).1
    cases hcoded : d.code with
    | none =>
      rw [hcoded, Option.map_none, codeText, List.append_nil] at heq
      exact h.uncoded hcoded before gap code hbefore hgap hcode hclosed (by rw [hmessage, heq])
    | some own =>
      have hsome : d.code ≠ none := by simp [hcoded]
      have heq : t ++ ([' ', ' '] ++ '[' :: own.shown) = gap ++ '[' :: code := by
        refine List.append_cancel_right (?_ : _ ++ [']'] = _ ++ [']'])
        simpa [hcoded, codeText] using heq
      rcases gap_cases heq with ⟨u, hblanks⟩ | ⟨after, hopens, hafter⟩
      · -- The end of the message would be blank.
        have hblank := hgap.2 (t.getLast hne) (by rw [hblanks]; simp)
        rw [h.coded_end hsome (t.getLast hne)
          (by simp [hmessage, hne, List.getLast?_eq_some_getLast])] at hblank
        cases hblank
      · -- A bracket of the message would be closed by the code.
        obtain ⟨start, blank, rfl⟩ := (List.eq_nil_or_concat gap).resolve_left hgap.1
        have hcloses := h.coded_brackets hsome (before ++ start) blank after (by simp [hbefore])
          (hgap.2 blank (by simp)) (by simp [hmessage, hopens])
        exact hclosed (hafter hcloses)

/-! The whole line. -/

def columnText (withColumn : Bool) (column : Nat) : List Char :=
  if withColumn then Nat.toDigits 10 column ++ [':'] else []

def columnDigits (withColumn : Bool) (column : Nat) : List Char :=
  if withColumn then Nat.toDigits 10 column else []

theorem column?_append (withColumn : Bool) (column : Nat) (rest : List Char) :
    column? (columnText withColumn column ++ ' ' :: rest) =
      (columnDigits withColumn column, ' ' :: rest) := by
  cases withColumn with
  | false =>
    have hnone : numberThen? ':' (' ' :: rest) = none :=
      numberThen?_eq_none (Stops.cons (by decide))
    simp [column?, columnText, columnDigits, hnone]
  | true =>
    have hsome := numberThen?_append (isNumber_toDigits column) isDigit_colon (' ' :: rest)
    simp [column?, columnText, columnDigits, hsome]

theorem toList_writeLine (withColumn : Bool) (d : Diagnostic) :
    (writeLine withColumn d).toList = d.file.shown ++ ':' :: (Nat.toDigits 10 d.line ++ ':' ::
      (columnText withColumn d.column ++ ' ' :: (d.severity.name.toList ++ ([':', ' '] ++
        (d.message.shown ++ codeText (d.code.map LooseText.shown)))))) := by
  cases withColumn <;> cases hcode : d.code <;>
    simp [writeLine, columnText, codeText, LooseText.toList_toString, toString_string,
      Nat.toString_eq_repr, Nat.repr, hcode]

theorem word?_grade (severity : Severity) (rest : List Char) :
    word? gradeWords (severity.name.toList ++ rest) = some (some severity, rest) := by
  cases severity <;> rfl

/-- The parts that were put together are read, up to where the message ends. -/
theorem readRest?_parts {extension line columnText column word body message : List Char}
    {grade : Option Severity} {code : Option (List Char)} (hextension : extension ∈ extensions)
    (hline : IsNumber line)
    (hcolumn : ∀ rest, column? (columnText ++ ' ' :: rest) = (column, ' ' :: rest))
    (hgrade : ∀ rest, word? gradeWords (word ++ rest) = some (grade, rest))
    (hbody : nonemptySplit (splitFirst codeAtEnd?) body = some (message, code)) :
    readRest? (extension ++ ':' :: (line ++ ':' :: (columnText ++ ' ' :: (word ++
      ([':', ' '] ++ body))))) = some (extension, ⟨line, column, grade, code, message⟩) := by
  have htake : ∀ rest : List Char,
      (extension ++ rest).take ((extension ++ rest).length - rest.length) = extension := by
    intro rest
    rw [List.length_append, Nat.add_sub_cancel, List.take_left]
  simp only [readRest?, afterExtension?_append hextension, Option.bind_eq_bind, Option.bind_some,
    after?_cons, numberThen?_append hline isDigit_colon, hcolumn, hgrade, after?_append, hbody,
    htake]
  rfl

theorem readRest?_append {d : Diagnostic} (h : Fits d) (withColumn : Bool)
    {extension : List Char} (hextension : extension ∈ extensions) :
    readRest? (extension ++ ':' :: (Nat.toDigits 10 d.line ++ ':' ::
      (columnText withColumn d.column ++ ' ' :: (d.severity.name.toList ++ ([':', ' '] ++
        (d.message.shown ++ codeText (d.code.map LooseText.shown))))))) =
      some (extension, ⟨Nat.toDigits 10 d.line, columnDigits withColumn d.column,
        some d.severity, d.code.map LooseText.shown, d.message.shown⟩) := by
  have hcode : codeAtEnd? (codeText (d.code.map LooseText.shown)) =
      some (d.code.map LooseText.shown) := by
    refine codeAtEnd?_codeText fun c hc => ?_
    obtain ⟨code, hcode, rfl⟩ := Option.map_eq_some_iff.1 hc
    exact h.code_ne code hcode
  have hmessage := nonemptySplit_append h.message_ne
    (splitFirst_append hcode fun t hne ht => h.codeAtEnd?_eq_none hne ht)
  exact readRest?_parts hextension (isNumber_toDigits d.line) (column?_append withColumn d.column)
    (word?_grade d.severity) hmessage

theorem isLine_codeText {code : Option (List Char)} (h : ∀ c, code = some c → IsLine c) :
    IsLine (codeText code) := by
  cases code with
  | none => exact isLine_nil
  | some code => simp [codeText, h code rfl, isLineEnd]

theorem isRead_writeLine {d : Diagnostic} (h : Fits d) {withColumn : Bool}
    (hcolumn : withColumn = false → d.column = 0) :
    IsRead readLine d (writeLine withColumn d).toList := by
  obtain ⟨stem, extension, hnamed⟩ := h.named
  have hrest := readRest?_append h withColumn hnamed.known
  rw [toList_writeLine]
  refine ⟨?_, by simp, findingOf d (columnDigits withColumn d.column), ?_,
    h.diagnostic_findingOf ?_⟩
  · have hcode : IsLine (codeText (d.code.map LooseText.shown)) := by
      refine isLine_codeText fun c hc => ?_
      obtain ⟨code, hcode, rfl⟩ := Option.map_eq_some_iff.1 hc
      exact h.code_line code hcode
    have hseverity : IsLine d.severity.name.toList := by
      cases d.severity <;> simp [Severity.name, isLineEnd]
    have hdigits : IsLine (columnText withColumn d.column) := by
      cases withColumn <;> simp [columnText, isLine_toDigits, isLineEnd_colon]
    simp [isLine_toDigits, h.file_line, h.message_line, hcode, hseverity, hdigits,
      isLineEnd_colon, isLineEnd_space]
  · have hsplit := hnamed.split distinct prefix_of_readRest? hrest
    rw [readLine, hsplit]
    simp only [Option.bind_eq_bind, Option.bind_some, findingOf, hnamed.file_eq]
    rfl
  · cases withColumn with
    | true => exact .inl rfl
    | false => exact .inr ⟨rfl, hcolumn rfl⟩

end Mypy

/-! The lines of the TypeScript compiler. -/

namespace Tsc

def restText (line column gap : List Char) (severity : Severity) (gap' number gap'' message :
    List Char) : List Char :=
  '(' :: (line ++ ',' :: (column ++ ')' :: ':' :: (gap ++ (severity.name.toList ++ (gap' ++
    'T' :: 'S' :: (number ++ ':' :: (gap'' ++ message)))))))

inductive Follows : List Char → Prop
  | intro {line column gap gap' number gap'' message : List Char} (severity : Severity) :
      IsNumber line → IsNumber column → IsGap gap → IsGap gap' → IsNumber number → IsGap gap'' →
        message ≠ [] → Follows (restText line column gap severity gap' number gap'' message)

/-- What the form asks of a diagnostic. Nothing that ends its message could follow the file of a
line. -/
structure Fits (d : Diagnostic) : Prop extends Printable d where
  file_ne : d.file.shown ≠ []
  coded : ∃ number, IsNumber number ∧
    d.code = some (LooseText.ofString (String.ofList ('T' :: 'S' :: number)))
  message_start : Stops isBlank d.message.shown
  unmarked : ∀ s, s <:+ d.message.shown → ¬ Follows s

theorem follows_of_readRest? {s : List Char} {rest : Rest} (h : readRest? s = some rest) :
    Follows s := by
  simp only [readRest?, Option.bind_eq_bind, Option.bind_eq_some_iff, Prod.exists] at h
  obtain ⟨s₁, hopen, line, s₂, hline, column, s₃, hcolumn, s₄, hcolon, s₅, hgap, severity, s₆,
    hseverity, s₇, hgap', s₈, hletters, number, s₉, hnumber, message, hmessage, -⟩ := h
  obtain ⟨hlineNumber, rfl⟩ := numberThen?_eq_some hline
  obtain ⟨hcolumnNumber, rfl⟩ := numberThen?_eq_some hcolumn
  obtain ⟨gap, hblanks, rfl⟩ := afterBlanks?_eq_some hgap
  obtain ⟨gap', hblanks', rfl⟩ := afterBlanks?_eq_some hgap'
  obtain ⟨hcodeNumber, rfl⟩ := numberThen?_eq_some hnumber
  obtain ⟨gap'', hblanks'', hne, rfl⟩ := messageAfterBlanks?_eq_some hmessage
  obtain rfl := after?_eq_some hopen
  obtain rfl := after?_eq_some hcolon
  obtain rfl := after?_eq_some hletters
  obtain rfl := eq_severity_append hseverity
  exact .intro severity hlineNumber hcolumnNumber hblanks hblanks' hcodeNumber hblanks'' hne

/-- The parts that were put together are read, whatever blanks stand between them. -/
theorem readRest?_restText {line column gap gap' number gap'' message found : List Char}
    (severity : Severity) (hline : IsNumber line) (hcolumn : IsNumber column) (hgap : IsGap gap)
    (hgap' : IsGap gap') (hnumber : IsNumber number)
    (hmessage : messageAfterBlanks? (gap'' ++ message) = some found) :
    readRest? (restText line column gap severity gap' number gap'' message) =
      some ⟨line, column, severity, 'T' :: 'S' :: number, found⟩ := by
  have hseverity : ∀ rest, Stops isBlank (severity.name.toList ++ rest) := by
    cases severity <;> exact fun rest => Stops.cons (by decide)
  have hletters : ∀ rest, after? ['T', 'S'] ('T' :: 'S' :: rest) = some rest :=
    after?_append ['T', 'S']
  simp only [readRest?, restText, after?_cons, Option.bind_eq_bind, Option.bind_some,
    numberThen?_append hline (show isDigit ',' = false by decide),
    numberThen?_append hcolumn (show isDigit ')' = false by decide),
    afterBlanks?_append hgap (hseverity _), word?_severity,
    afterBlanks?_append hgap' (Stops.cons (show isBlank 'T' = false by decide)), hletters,
    numberThen?_append hnumber isDigit_colon, hmessage]
  rfl

/-- A text that could follow a file opens a bracket. -/
theorem Follows.head {s : List Char} (h : Follows s) : s.head? = some '(' := by
  cases h
  rfl

def placeText (d : Diagnostic) (number : List Char) : List Char :=
  Nat.toDigits 10 d.line ++ ',' :: (Nat.toDigits 10 d.column ++ ')' :: ':' :: ([' '] ++
    (d.severity.name.toList ++ ([' '] ++ 'T' :: 'S' :: (number ++ ':' :: [' '])))))

theorem restText_eq (d : Diagnostic) (number message : List Char) :
    restText (Nat.toDigits 10 d.line) (Nat.toDigits 10 d.column) [' '] d.severity [' '] number
      [' '] message = '(' :: (placeText d number ++ message) := by
  simp [restText, placeText]

/-- The place and the code of a line open no other bracket. -/
theorem not_mem_placeText (d : Diagnostic) {number : List Char} (hnumber : IsNumber number) :
    '(' ∉ placeText d number := by
  have hbracket : ∀ {run}, IsNumber run → '(' ∉ run := fun hrun hmem =>
    absurd (hrun.2 '(' hmem) (by decide)
  have hseverity : '(' ∉ d.severity.name.toList := by cases d.severity <;> decide
  simp [placeText, hbracket (isNumber_toDigits _), hbracket hnumber, hseverity]

theorem isLine_placeText (d : Diagnostic) {number : List Char} (hnumber : IsLine number) :
    IsLine (placeText d number) := by
  have hseverity : IsLine d.severity.name.toList := by
    cases d.severity <;> simp [Severity.name, isLineEnd]
  simp [placeText, isLine_toDigits, hnumber, hseverity, isLineEnd]

theorem toList_writeLine (d : Diagnostic) {number : List Char}
    (hcode : d.code = some (LooseText.ofString (String.ofList ('T' :: 'S' :: number)))) :
    (writeLine d).toList =
      d.file.shown ++ '(' :: (placeText d number ++ d.message.shown) := by
  simp [writeLine, placeText, LooseText.toList_toString, toString_string, Nat.toString_eq_repr,
    Nat.repr, hcode]

theorem isRead_writeLine {d : Diagnostic} (h : Fits d) :
    IsRead readLine d (writeLine d).toList := by
  obtain ⟨number, hnumber, hcode⟩ := h.coded
  have hrest := readRest?_restText d.severity (isNumber_toDigits d.line)
    (isNumber_toDigits d.column) isGap_space isGap_space hnumber
    (messageAfterBlanks?_append isGap_space h.message_ne h.message_start)
  rw [restText_eq] at hrest
  -- A later place of the line is in the message or does not start with a bracket.
  have hlater : ∀ t, t <:+ placeText d number ++ d.message.shown → readRest? t = none := by
    intro t ht
    cases hread : readRest? t with
    | none => rfl
    | some rest =>
      have hfollows := follows_of_readRest? hread
      rcases suffix_append_cases ht with ht | ⟨u, hne, hu, rfl⟩
      · exact absurd hfollows (h.unmarked t ht)
      · have hopens := hfollows.head
        rw [List.head?_append_of_ne_nil _ hne] at hopens
        exact absurd (hu.mem (List.mem_of_mem_head? hopens)) (not_mem_placeText d hnumber)
  have hsplit := nonemptySplit_append h.file_ne
    (splitLast_append (s := d.file.shown.tail) hrest hlater (by simp))
  rw [toList_writeLine d hcode]
  refine ⟨?_, by simp, findingOf d (Nat.toDigits 10 d.column), ?_,
    h.diagnostic_findingOf (.inl rfl)⟩
  · have hcodeLine := h.code_line _ hcode
    rw [LooseText.shown_ofString, String.toList_ofList, isLine_cons, isLine_cons] at hcodeLine
    simp [isLine_placeText d hcodeLine.2.2, h.file_line, h.message_line, isLineEnd]
  · rw [readLine, hsplit]
    simp only [Option.bind_eq_bind, Option.bind_some, findingOf, hcode, Option.map_some,
      LooseText.shown_ofString, String.toList_ofList]
    rfl

end Tsc

/-! All forms. -/

inductive Form where
  | tsc
  | mypy
  | goVet
  | pylint
  deriving Repr, DecidableEq

namespace Form

def toolName : Form → String
  | tsc => Tsc.toolName
  | mypy => Mypy.toolName
  | goVet => GoVet.toolName
  | pylint => Pylint.toolName

def readLine : Form → List Char → Option Finding
  | tsc => Tsc.readLine
  | mypy => Mypy.readLine
  | goVet => GoVet.readLine
  | pylint => Pylint.readLine

def read : Form → String → Except IntegerFault ToolResult
  | tsc => Tsc.read
  | mypy => Mypy.read
  | goVet => GoVet.read
  | pylint => Pylint.read

theorem read_eq (form : Form) (output : String) :
    form.read output = readOutput form.toolName form.readLine output := by
  cases form <;> rfl

inductive Writes : Form → Diagnostic → String → Prop
  | tsc {d : Diagnostic} : Tsc.Fits d → Writes tsc d (Tsc.writeLine d)
  | mypy {d : Diagnostic} (withColumn : Bool) : Mypy.Fits d →
      (withColumn = false → d.column = 0) → Writes mypy d (Mypy.writeLine withColumn d)
  | goVet {d : Diagnostic} : GoVet.Fits d → Writes goVet d (GoVet.writeLine d)
  | pylint {d : Diagnostic} : Pylint.Fits d → Writes pylint d (Pylint.writeLine d)

theorem Writes.isRead {form : Form} {d : Diagnostic} {line : String} (h : form.Writes d line) :
    IsRead form.readLine d line.toList := by
  cases h with
  | tsc hfits => exact Tsc.isRead_writeLine hfits
  | mypy withColumn hfits hcolumn => exact Mypy.isRead_writeLine hfits hcolumn
  | goVet hfits => exact GoVet.isRead_writeLine hfits
  | pylint hfits => exact Pylint.isRead_writeLine hfits

/-- Diagnostics that are written in the lines of an output are read back from it, in their order,
whatever the ends of the lines. -/
theorem read_written (form : Form) {ds : List Diagnostic} {lines : List String} {output : String}
    (hlines : List.Forall₂ form.Writes ds lines)
    (houtput : Laid (fun _ => True) (lines.map String.toList) output.toList) :
    form.read output = .ok (ToolResult.ofDiagnostics ds (some form.toolName)) := by
  have hread : List.Forall₂ (IsRead form.readLine) ds (lines.map String.toList) := by
    rw [List.forall₂_map_right_iff]
    exact hlines.imp fun _ _ => Writes.isRead
  rw [read_eq, readOutput_laid hread houtput]

def undefinedName : Diagnostic where
  file := "src/é.py"
  line := 3
  column := 7
  message := "Name 'x' is not defined"
  severity := .error
  code := some "name-defined"

theorem fits_undefinedName : Mypy.Fits undefinedName where
  file_plain := LooseText.isPlain_ofString _
  file_line := by decide +kernel
  message_plain := LooseText.isPlain_ofString _
  message_line := by decide +kernel
  message_ne := by decide +kernel
  code_plain := by
    rintro _ ⟨⟩
    exact LooseText.isPlain_ofString _
  code_line := by
    rintro _ ⟨⟩
    decide +kernel
  line_short := by decide +kernel
  column_short := by decide +kernel
  named := ⟨"src/é".toList, ".py".toList, by decide +kernel, by decide +kernel,
    by decide +kernel, by decide +kernel⟩
  code_ne := by
    rintro _ ⟨⟩
    decide +kernel
  coded_end := by
    rintro - c ⟨⟩
    decide +kernel
  coded_brackets := by
    intro _ before blank after _ _ hmessage
    have hbracket : '[' ∈ undefinedName.message.shown := by simp [hmessage]
    exact absurd hbracket (by decide +kernel)
  uncoded := by rintro ⟨⟩

/-- The same message twice, with different ends of the two lines. -/
theorem read_written_undefinedName :
    Mypy.read ("src/é.py:3:7: error: Name 'x' is not defined  [name-defined]" ++ "\r\n" ++
        ("src/é.py:3:7: error: Name 'x' is not defined  [name-defined]" ++ "\r")) =
      .ok (ToolResult.ofDiagnostics [undefinedName, undefinedName] (some "mypy")) := by
  have hwrites := Writes.mypy true fits_undefinedName (by decide)
  refine read_written .mypy (.cons hwrites (.cons hwrites .nil)) ?_
  have htext : ∀ line : String, (line ++ "\r\n" ++ (line ++ "\r")).toList =
      line.toList ++ (LineEnd.returnFeed.chars ++ (line.toList ++ (LineEnd.ret.chars ++ []))) := by
    simp [LineEnd.chars]
  have hline : Mypy.writeLine true undefinedName =
      "src/é.py:3:7: error: Name 'x' is not defined  [name-defined]" := by decide +kernel
  rw [← hline, htext]
  exact .ended .returnFeed trivial (.ended .ret trivial .nil)

end Form

end ProjectCheck.Checker
