import ProjectCheck.Proofs.Text.Digits
import ProjectCheck.Text.Line

/-!
Texts that are written line by line. Each line has an end after it, in any mixture of the usual
ones, and the last line may have none. Such a text is split into the lines that were written.
-/
namespace ProjectCheck.Text

def IsLine (line : List Char) : Prop := ∀ c ∈ line, isLineEnd c = false

instance (line : List Char) : Decidable (IsLine line) :=
  List.decidableBAll (isLineEnd · = false) line

/-- What holds of each character of a text is seen by going through the text, and not through all
characters. -/
theorem forall_mem_of_all {said : Char → Prop} [DecidablePred said] {text : List Char}
    (h : text.all (said ·) = true) : ∀ c ∈ text, said c := by
  simpa only [List.all_eq_true, decide_eq_true_eq] using h

@[simp] theorem isLine_nil : IsLine [] := fun _ h => nomatch h

@[simp] theorem isLine_cons {c : Char} {line : List Char} :
    IsLine (c :: line) ↔ isLineEnd c = false ∧ IsLine line :=
  List.forall_mem_cons

@[simp] theorem isLine_append {line rest : List Char} :
    IsLine (line ++ rest) ↔ IsLine line ∧ IsLine rest :=
  List.forall_mem_append

theorem isLine_toDigits (n : Nat) : IsLine (Nat.toDigits 10 n) := by
  intro c hc
  have hdigit := (isAsciiDigit_iff c).1 (isAsciiDigit_of_mem_toDigits hc)
  simp only [isLineEnd, Bool.or_eq_false_iff, Bool.and_eq_false_iff, decide_eq_false_iff_not,
    beq_eq_false_iff_ne]
  omega

inductive LineEnd where
  | feed
  | returnFeed
  | ret
  deriving Repr, DecidableEq

def LineEnd.chars : LineEnd → List Char
  | feed => ['\n']
  | returnFeed => ['\r', '\n']
  | ret => ['\r']

inductive Laid (allowed : LineEnd → Prop) : List (List Char) → List Char → Prop
  | nil : Laid allowed [] []
  | unended {line : List Char} : line ≠ [] → Laid allowed [line] line
  | ended {line text : List Char} {lines : List (List Char)} (ending : LineEnd) :
      allowed ending → Laid allowed lines text →
        Laid allowed (line :: lines) (line ++ (ending.chars ++ text))

theorem splitLines_cons {c : Char} (hc : isLineEnd c = false) (s : List Char) :
    splitLines (c :: s) = consLine c (splitLines s) := by
  rw [splitLines.eq_3]
  · rw [hc]
    rfl
  · rintro rest rfl -
    revert hc
    decide

/-- A line goes in front of the first line of what follows it. -/
theorem splitLines_append {line rest : List Char} {lines : List (List Char)}
    (hline : IsLine line) (hrest : splitLines rest = [] :: lines) :
    splitLines (line ++ rest) = line :: lines := by
  induction line with
  | nil => exact hrest
  | cons c line ih =>
    obtain ⟨hc, hends⟩ := isLine_cons.1 hline
    rw [List.cons_append, splitLines_cons hc, ih hends]
    rfl

/-- A line without an end after it is the only line of its text. -/
theorem splitLines_line {line : List Char} (hline : IsLine line) (hne : line ≠ []) :
    splitLines line = [line] := by
  induction line with
  | nil => exact absurd rfl hne
  | cons c line ih =>
    obtain ⟨hc, hends⟩ := isLine_cons.1 hline
    rw [splitLines_cons hc]
    cases line with
    | nil => rfl
    | cons d line =>
      rw [ih hends (List.cons_ne_nil d line)]
      rfl

/-- A carriage return is a line end of its own unless a line feed follows it. -/
theorem splitLines_ending {ending : LineEnd} {text : List Char}
    (h : ending = .ret → text.head? ≠ some '\n') :
    splitLines (ending.chars ++ text) = [] :: splitLines text := by
  cases ending with
  | feed => rfl
  | returnFeed => rfl
  | ret =>
    have hhead := h rfl
    cases text with
    | nil => rfl
    | cons c text =>
      have hc : c ≠ '\n' := fun heq => hhead (by rw [heq]; rfl)
      have hreturn : isLineEnd '\r' = true := by decide
      rw [show LineEnd.ret.chars ++ c :: text = '\r' :: c :: text from rfl, splitLines.eq_3]
      · rw [if_pos hreturn]
      · rintro rest - heq
        exact hc (List.cons.inj heq).1

variable {allowed : LineEnd → Prop} {lines : List (List Char)} {text : List Char}

/-- A text of lines that are not empty does not start with a line end. -/
theorem Laid.head_ne (h : Laid allowed lines text) (hlines : ∀ line ∈ lines, IsLine line)
    (hne : ∀ line ∈ lines, line ≠ []) : text.head? ≠ some '\n' := by
  intro hhead
  have hfirst : ∃ line, line ∈ lines ∧ line.head? = some '\n' := by
    cases h with
    | nil => cases hhead
    | unended => exact ⟨text, List.mem_cons_self .., hhead⟩
    | @ended line rest lines ending _ _ =>
      refine ⟨line, List.mem_cons_self .., ?_⟩
      cases hline : line with
      | nil => exact absurd hline (hne line (List.mem_cons_self ..))
      | cons c tail => simpa only [hline, List.cons_append, List.head?_cons] using hhead
  obtain ⟨line, hline, hfeed⟩ := hfirst
  exact absurd (hlines line hline _ (List.mem_of_mem_head? hfeed)) (by decide)

/-- The lines are read back from their text. Where a carriage return alone may end a line, no line
is empty: an empty line after it, with a line feed, would not be seen. -/
theorem splitLines_laid (h : Laid allowed lines text) (hlines : ∀ line ∈ lines, IsLine line)
    (hne : allowed .ret → ∀ line ∈ lines, line ≠ []) : splitLines text = lines := by
  induction h with
  | nil => rfl
  | unended hline => exact splitLines_line (hlines _ (List.mem_cons_self ..)) hline
  | ended ending hallowed hrest ih =>
    have hlinesRest := fun line hline => hlines line (List.mem_cons_of_mem _ hline)
    have hneRest := fun hret line hline => hne hret line (List.mem_cons_of_mem _ hline)
    have hhead : ending = .ret → _ := fun hending =>
      hrest.head_ne hlinesRest (hneRest (hending ▸ hallowed))
    refine splitLines_append (hlines _ (List.mem_cons_self ..)) ?_
    rw [splitLines_ending hhead, ih hlinesRest hneRest]

end ProjectCheck.Text
