import ProjectCheck.Proofs.Checker.Forms
import ProjectCheck.Proofs.Checker.Lines

/-!
How lines are split that start with a place, `file:line:column:`, where the file ends with the one
extension of its language. Such a place can stand again in the message, so one line can have several
splits. The file is as short as it can be. In the lines of go vet the blanks before the message are
then as many as they can be; in those of pylint nothing else is left open.
-/
namespace ProjectCheck.Checker

open Text

/-! Places. -/

def placed (line column said : List Char) : List Char :=
  line ++ ':' :: (column ++ ':' :: said)

theorem placed_inj {line column said line' column' said' : List Char} (hline : IsNumber line)
    (hline' : IsNumber line') (hcolumn : IsNumber column) (hcolumn' : IsNumber column')
    (h : placed line column said = placed line' column' said') :
    line = line' ∧ column = column' ∧ said = said' := by
  obtain ⟨hlines, h⟩ := hline.append_inj hline' isDigit_colon h
  obtain ⟨hcolumns, hsaid⟩ := hcolumn.append_inj hcolumn' isDigit_colon h
  exact ⟨hlines, hcolumns, hsaid⟩

/-- No other file can be shorter than the one that is found, since the extension is always the
same. -/
theorem length_file_le {α : Type} {readRest : List Char → Option α}
    {stem stem' extension rest text : List Char} {a b : α}
    (h : nonemptySplit (splitFirst readRest) text = some (stem, a))
    (hne : stem' ≠ []) (htext : text = (stem' ++ extension) ++ rest)
    (hrest : readRest (extension ++ rest) = some b) :
    (stem ++ extension).length ≤ (stem' ++ extension).length := by
  rw [List.append_assoc] at htext
  have hstem := nonemptySplit_shortest h hne htext hrest
  rw [List.length_append, List.length_append]
  exact Nat.add_le_add_right hstem _

/-! The lines of go vet. -/

namespace GoVet

structure Split where
  file : List Char
  line : List Char
  column : List Char
  gap : List Char
  message : List Char

namespace Split

def finding (s : Split) : Finding := ⟨s.file, s.line, s.column, .warning, none, s.message⟩

def rest (s : Split) : List Char := ':' :: placed s.line s.column (s.gap ++ s.message)

structure IsOf (s : Split) (text : List Char) : Prop where
  text_eq : text = s.file ++ s.rest
  named : ∃ stem, stem ≠ [] ∧ s.file = stem ++ ".go".toList
  line_number : IsNumber s.line
  column_number : IsNumber s.column
  gap_blank : IsGap s.gap
  message_ne : s.message ≠ []

structure IsPreferred (s : Split) (text : List Char) : Prop extends s.IsOf text where
  file_shortest : ∀ other : Split, other.IsOf text → s.file.length ≤ other.file.length
  gap_longest : ∀ other : Split, other.IsOf text → other.file = s.file →
    other.gap.length ≤ s.gap.length

variable {s t : Split} {text : List Char}

/-- What follows the stem can be read, up to where the message starts. -/
theorem IsOf.exists_readRest? (h : s.IsOf text) :
    ∃ message, readRest? (".go".toList ++ s.rest) = some ⟨s.line, s.column, message⟩ := by
  obtain ⟨message, hmessage⟩ := exists_messageAfterBlanks? h.gap_blank h.message_ne
  exact ⟨message, readRest?_parts h.line_number h.column_number hmessage⟩

/-- The text after the file determines its parts, but for where the message starts. -/
theorem IsOf.rest_inj (hs : s.IsOf text) (ht : t.IsOf text) (h : s.file = t.file) :
    s.line = t.line ∧ s.column = t.column ∧ s.gap ++ s.message = t.gap ++ t.message := by
  have htext := hs.text_eq.symm.trans ht.text_eq
  rw [h] at htext
  exact placed_inj hs.line_number ht.line_number hs.column_number ht.column_number
    (List.cons.inj (List.append_cancel_left htext)).2

/-- There is only one preferred split. -/
theorem IsPreferred.unique (hs : s.IsPreferred text) (ht : t.IsPreferred text) : s = t := by
  have hlength := Nat.le_antisymm (hs.file_shortest t ht.toIsOf) (ht.file_shortest s hs.toIsOf)
  have hfile := (List.append_inj (hs.text_eq.symm.trans ht.text_eq) hlength).1
  obtain ⟨hline, hcolumn, hsaid⟩ := hs.rest_inj ht.toIsOf hfile
  have hgapLength := Nat.le_antisymm (ht.gap_longest s hs.toIsOf hfile)
    (hs.gap_longest t ht.toIsOf hfile.symm)
  obtain ⟨hgap, hmessage⟩ := List.append_inj hsaid hgapLength
  cases s
  cases t
  simp_all

end Split

variable {text : List Char}

theorem eq_of_readRest? {s : List Char} {r : Rest} (h : readRest? s = some r) :
    IsNumber r.line ∧ IsNumber r.column ∧ ∃ said,
      s = ".go".toList ++ ':' :: placed r.line r.column said ∧
        messageAfterBlanks? said = some r.message := by
  simp only [readRest?, Option.bind_eq_bind, Option.bind_eq_some_iff, Prod.exists] at h
  obtain ⟨s₁, hextension, line, s₂, hline, column, said, hcolumn, message, hmessage, hr⟩ := h
  obtain ⟨hlineNumber, rfl⟩ := numberThen?_eq_some hline
  obtain ⟨hcolumnNumber, rfl⟩ := numberThen?_eq_some hcolumn
  obtain rfl := Option.some.inj hr
  refine ⟨hlineNumber, hcolumnNumber, said, ?_, hmessage⟩
  rw [after?_eq_some hextension]
  rfl

theorem exists_readLine_of_isOf {s : Split} (h : s.IsOf text) : ∃ f, readLine text = some f := by
  obtain ⟨stem, hne, hfile⟩ := h.named
  obtain ⟨message, hrest⟩ := h.exists_readRest?
  obtain ⟨found, hfound⟩ := exists_split_of_rest hne hrest
  rw [← List.append_assoc, ← hfile, ← h.text_eq] at hfound
  rw [readLine, hfound]
  exact ⟨_, rfl⟩

/-- A finding of a line is what its preferred split says. -/
theorem exists_isPreferred {f : Finding} (h : readLine text = some f) :
    ∃ s : Split, s.IsPreferred text ∧ s.finding = f := by
  simp only [readLine, Option.bind_eq_bind, Option.bind_eq_some_iff, Prod.exists] at h
  obtain ⟨stem, r, hsplit, hf⟩ := h
  obtain rfl := Option.some.inj hf
  obtain ⟨rest, hne, htext, hrest⟩ := exists_rest_of_splitFirst hsplit
  obtain ⟨hline, hcolumn, said, rfl, hmessage⟩ := eq_of_readRest? hrest
  obtain ⟨gap, hgap, hmessageNe, rfl⟩ := messageAfterBlanks?_eq_some hmessage
  let s : Split := ⟨stem ++ ".go".toList, r.line, r.column, gap, r.message⟩
  have hs : s.IsOf text := by
    refine ⟨?_, ⟨stem, hne, rfl⟩, hline, hcolumn, hgap, hmessageNe⟩
    rw [htext, ← List.append_assoc]
    rfl
  refine ⟨s, ⟨hs, fun other hother => ?_, fun other hother hfile => ?_⟩, rfl⟩
  · obtain ⟨stem', hne', hfile'⟩ := hother.named
    obtain ⟨_, hread⟩ := hother.exists_readRest?
    rw [hfile']
    exact length_file_le hsplit hne' (hfile' ▸ hother.text_eq) hread
  · obtain ⟨-, -, hboth⟩ := hother.rest_inj hs hfile
    have hshortest := messageAfterBlanks?_shortest hmessage hother.gap_blank hother.message_ne
      hboth.symm
    have hlength := congrArg List.length hboth
    simp only [List.length_append, s] at hlength ⊢
    omega

theorem readsBySplit : ReadsBySplit readLine Split.IsOf Split.IsPreferred Split.finding where
  isOf_of_preferred h := h.toIsOf
  text_ne h := by
    rw [h.text_eq]
    exact List.append_ne_nil_of_right_ne_nil _ (List.cons_ne_nil _ _)
  reads := exists_readLine_of_isOf
  preferred := exists_isPreferred
  unique := Split.IsPreferred.unique

end GoVet

/-! The lines of pylint. -/

namespace Pylint

theorem isUpper_iff (c : Char) : c.isUpper = true ↔ 'A' ≤ c ∧ c ≤ 'Z' :=
  decide_eq_true_iff

structure Split where
  file : List Char
  line : List Char
  column : List Char
  letter : Char
  number : List Char
  message : List Char

namespace Split

def finding (s : Split) : Finding where
  file := s.file
  line := s.line
  column := s.column
  severity := if s.letter = 'E' ∨ s.letter = 'F' then .error else .warning
  code := some (s.letter :: s.number)
  message := s.message

def said (s : Split) : List Char :=
  [' '] ++ s.letter :: (s.number ++ ':' :: ([' '] ++ s.message))

def rest (s : Split) : List Char := ':' :: placed s.line s.column s.said

structure IsOf (s : Split) (text : List Char) : Prop where
  text_eq : text = s.file ++ s.rest
  named : ∃ stem, stem ≠ [] ∧ s.file = stem ++ ".py".toList
  line_number : IsNumber s.line
  column_number : IsNumber s.column
  letter_capital : 'A' ≤ s.letter ∧ s.letter ≤ 'Z'
  code_number : IsNumber s.number
  message_ne : s.message ≠ []

structure IsPreferred (s : Split) (text : List Char) : Prop extends s.IsOf text where
  file_shortest : ∀ other : Split, other.IsOf text → s.file.length ≤ other.file.length

variable {s t : Split} {text : List Char}

/-- What follows the stem can be read. -/
theorem IsOf.readRest?_rest (h : s.IsOf text) : readRest? (".py".toList ++ s.rest) =
    some ⟨s.line, s.column, s.letter, s.number, s.message⟩ :=
  readRest?_append h.line_number h.column_number ((isUpper_iff _).2 h.letter_capital)
    h.code_number h.message_ne

/-- There is only one preferred split. -/
theorem IsPreferred.unique (hs : s.IsPreferred text) (ht : t.IsPreferred text) : s = t := by
  have hlength := Nat.le_antisymm (hs.file_shortest t ht.toIsOf) (ht.file_shortest s hs.toIsOf)
  obtain ⟨hfile, hrest⟩ := List.append_inj (hs.text_eq.symm.trans ht.text_eq) hlength
  obtain ⟨hline, hcolumn, hsaid⟩ := placed_inj hs.line_number ht.line_number hs.column_number
    ht.column_number (List.cons.inj hrest).2
  obtain ⟨hletter, hsaid⟩ := List.cons.inj (List.append_cancel_left hsaid)
  obtain ⟨hnumber, hmessage⟩ := hs.code_number.append_inj ht.code_number isDigit_colon hsaid
  have hmessage := List.append_cancel_left hmessage
  cases s
  cases t
  simp_all

end Split

variable {text : List Char}

theorem capital?_eq_some {s rest : List Char} {letter : Char}
    (h : capital? s = some (letter, rest)) : letter.isUpper = true ∧ s = letter :: rest := by
  cases s with
  | nil => cases h
  | cons c s =>
    rw [capital?] at h
    split at h
    case isFalse => cases h
    case isTrue hc =>
      obtain ⟨rfl, rfl⟩ := Prod.mk.inj (Option.some.inj h)
      exact ⟨hc, rfl⟩

/-- What is read after a stem makes a split with that stem. -/
theorem isOf_of_readRest? {stem rest : List Char} {r : Rest} (hne : stem ≠ [])
    (h : readRest? rest = some r) :
    (Split.mk (stem ++ ".py".toList) r.line r.column r.letter r.number r.message).IsOf
      (stem ++ rest) := by
  simp only [readRest?, Option.bind_eq_bind, Option.bind_eq_some_iff, Prod.exists] at h
  obtain ⟨s₁, hextension, line, s₂, hline, column, s₃, hcolumn, s₄, hspace, letter, s₅, hletter,
    number, s₆, hnumber, message, hspace', hr⟩ := h
  split at hr
  case isTrue => cases hr
  case isFalse hmessage =>
    obtain rfl := Option.some.inj hr
    obtain ⟨hlineNumber, rfl⟩ := numberThen?_eq_some hline
    obtain ⟨hcolumnNumber, rfl⟩ := numberThen?_eq_some hcolumn
    obtain ⟨hcodeNumber, rfl⟩ := numberThen?_eq_some hnumber
    obtain ⟨hcapital, rfl⟩ := capital?_eq_some hletter
    obtain rfl := after?_eq_some hspace
    obtain rfl := after?_eq_some hspace'
    refine ⟨?_, ⟨stem, hne, rfl⟩, hlineNumber, hcolumnNumber, (isUpper_iff _).1 hcapital,
      hcodeNumber, by simpa using hmessage⟩
    rw [after?_eq_some hextension, List.append_assoc]
    rfl

theorem exists_readLine_of_isOf {s : Split} (h : s.IsOf text) : ∃ f, readLine text = some f := by
  obtain ⟨stem, hne, hfile⟩ := h.named
  obtain ⟨found, hfound⟩ := exists_split_of_rest hne h.readRest?_rest
  rw [← List.append_assoc, ← hfile, ← h.text_eq] at hfound
  rw [readLine, hfound]
  exact ⟨_, rfl⟩

/-- A finding of a line is what its preferred split says. -/
theorem exists_isPreferred {f : Finding} (h : readLine text = some f) :
    ∃ s : Split, s.IsPreferred text ∧ s.finding = f := by
  simp only [readLine, Option.bind_eq_bind, Option.bind_eq_some_iff, Prod.exists] at h
  obtain ⟨stem, r, hsplit, hf⟩ := h
  obtain rfl := Option.some.inj hf
  obtain ⟨rest, hne, htext, hrest⟩ := exists_rest_of_splitFirst hsplit
  have hs := isOf_of_readRest? hne hrest
  rw [← htext] at hs
  refine ⟨_, ⟨hs, fun other hother => ?_⟩, rfl⟩
  obtain ⟨stem', hne', hfile'⟩ := hother.named
  rw [hfile']
  exact length_file_le hsplit hne' (hfile' ▸ hother.text_eq) hother.readRest?_rest

theorem readsBySplit : ReadsBySplit readLine Split.IsOf Split.IsPreferred Split.finding where
  isOf_of_preferred h := h.toIsOf
  text_ne h := by
    rw [h.text_eq]
    exact List.append_ne_nil_of_right_ne_nil _ (List.cons_ne_nil _ _)
  reads := exists_readLine_of_isOf
  preferred := exists_isPreferred
  unique := Split.IsPreferred.unique

end Pylint

/-- A line of go vet is read by the split with the shortest file and then the longest blanks before
the message, and a line of pylint by the split with the shortest file. A line that cannot be split
says nothing, and one with a number that is too long cannot be read. -/
theorem places_are_read_by_split {output : String} (hline : IsLine output.toList) :
    IsReadBySplit (GoVet.Split.IsOf · output.toList) (GoVet.Split.IsPreferred · output.toList)
      GoVet.Split.finding GoVet.toolName (GoVet.read output) ∧
    IsReadBySplit (Pylint.Split.IsOf · output.toList) (Pylint.Split.IsPreferred · output.toList)
      Pylint.Split.finding Pylint.toolName (Pylint.read output) :=
  ⟨GoVet.readsBySplit.readOutput GoVet.toolName hline,
    Pylint.readsBySplit.readOutput Pylint.toolName hline⟩

/-- One line has a place for both. The first extension with a colon after it has no number there,
and the message has such places again. -/
theorem places_are_read_by_split_both :
    let line := "x.go:y.py:/a.go:1:2: \tb.go:3:4: c.py:5:6: E7: d.py:8:9: W1: m"
    GoVet.read line = .ok (ToolResult.ofDiagnostics [{
      file := "x.go:y.py:/a.go"
      line := 1
      column := 2
      message := "b.go:3:4: c.py:5:6: E7: d.py:8:9: W1: m"
      severity := .warning }] (some GoVet.toolName)) ∧
    Pylint.read line = .ok (ToolResult.ofDiagnostics [{
      file := "x.go:y.py:/a.go:1:2: \tb.go:3:4: c.py"
      line := 5
      column := 6
      message := "d.py:8:9: W1: m"
      severity := .error
      code := some "E7" }] (some Pylint.toolName)) := by
  intro line
  have hgo : GoVet.readLine line.toList = some ⟨"x.go:y.py:/a.go".toList, ['1'], ['2'], .warning,
      none, "b.go:3:4: c.py:5:6: E7: d.py:8:9: W1: m".toList⟩ := by decide +kernel
  have hpylint : Pylint.readLine line.toList =
      some ⟨"x.go:y.py:/a.go:1:2: \tb.go:3:4: c.py".toList, ['5'], ['6'], .error,
        some "E7".toList, "d.py:8:9: W1: m".toList⟩ := by decide +kernel
  have hboth := @places_are_read_by_split line (by decide +kernel)
  constructor
  · obtain ⟨s, hs, hfinding⟩ := GoVet.exists_isPreferred hgo
    have hcomes := hboth.1.told s hs
    rw [hfinding] at hcomes
    refine (hcomes.short (by decide) (by decide)).trans ?_
    decide +kernel
  · obtain ⟨s, hs, hfinding⟩ := Pylint.exists_isPreferred hpylint
    have hcomes := hboth.2.told s hs
    rw [hfinding] at hcomes
    refine (hcomes.short (by decide) (by decide)).trans ?_
    decide +kernel

/-- A line whose number is too long can be split but cannot be read. -/
theorem GoVet.isOf_and_not_read {number : List Char} (hnumber : IsNumber number)
    (hline : IsLine number) (hlong : digitLimit < number.length) :
    let output := "a.go:" ++ String.ofList number ++ ":1: m"
    IsLine output.toList ∧ (∃ s : Split, s.IsOf output.toList) ∧
      GoVet.read output = .error (.tooManyDigits number.length) := by
  intro output
  let s : Split := ⟨"a.go".toList, number, ['1'], [' '], ['m']⟩
  have htext : output.toList = "a".toList ++ (".go".toList ++ s.rest) := by
    simp [output, s, Split.rest, placed]
  have hone : IsNumber ['1'] := ⟨by decide, List.all_eq_true.1 (by decide)⟩
  have hs : s.IsOf output.toList :=
    ⟨htext, ⟨"a".toList, by decide, rfl⟩, hnumber, hone, isGap_space, List.cons_ne_nil _ _⟩
  have hread : readLine output.toList = some s.finding := by
    have hrest := @readRest?_parts number ['1'] [' ', 'm'] ['m'] hnumber hone rfl
    have hsplit := nonemptySplit_append (s := "a".toList) (by decide)
      (splitFirst_append (s := []) hrest fun t hne ht => absurd (List.suffix_nil.1 ht) hne)
    rw [readLine, htext]
    exact congrArg (Option.bind · _) hsplit
  have houtput : IsLine output.toList := by
    rw [htext]
    simp [s, Split.rest, placed, hline, isLineEnd]
  have hcomes : s.finding.ComesTo toolName (GoVet.read output) :=
    readOutput_of_finding houtput (readsBySplit.text_ne hs) hread
  exact ⟨houtput, ⟨s, hs⟩, hcomes.longLine hlong⟩

/-- The number of this line is one, but written with so many noughts that it cannot be read. -/
theorem places_are_not_read_noughts :
    let output := "a.go:" ++ String.ofList (List.replicate 4300 '0' ++ ['1']) ++ ":1: m"
    IsLine output.toList ∧ (∃ s : GoVet.Split, s.IsOf output.toList) ∧
      GoVet.read output = .error (.tooManyDigits 4301) := by
  have hdigits : ∀ n, ∀ c ∈ List.replicate n '0' ++ ['1'], c = '0' ∨ c = '1' := by
    intro n c hc
    rcases List.mem_append.1 hc with hnought | hone
    · exact .inl (List.eq_of_mem_replicate hnought)
    · exact .inr (List.mem_singleton.1 hone)
  have hnumber : ∀ n, IsNumber (List.replicate n '0' ++ ['1']) := by
    refine fun n => ⟨List.append_ne_nil_of_right_ne_nil _ (List.cons_ne_nil _ _), fun c hc => ?_⟩
    rcases hdigits n c hc with rfl | rfl <;> decide
  have hline : ∀ n, IsLine (List.replicate n '0' ++ ['1']) := by
    intro n c hc
    rcases hdigits n c hc with rfl | rfl <;> decide
  have hlength : ∀ n, (List.replicate n '0' ++ ['1']).length = n + 1 := by
    intro n
    rw [List.length_append, List.length_replicate, List.length_singleton]
  have hboth := GoVet.isOf_and_not_read (hnumber 4300) (hline 4300) (by rw [hlength]; decide)
  rwa [hlength] at hboth

end ProjectCheck.Checker
