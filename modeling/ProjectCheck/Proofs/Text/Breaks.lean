import Mathlib.Data.List.DropRight
import ProjectCheck.Proofs.Text.Lines

/-!
Texts with line ends of any kind. Such a text can be ruled into lines in more than one way: a
carriage return and the line feed after it are one end of a line, or two with an empty line between
them. But for empty lines all ways agree, and so a text that is put together from two has the lines
of both.
-/
namespace ProjectCheck.Text

def IsBreak (ending : List Char) : Prop :=
  ending = ['\r', '\n'] ∨ ∃ c, isLineEnd c = true ∧ ending = [c]

inductive Ruled : List (List Char) → List Char → Prop
  | nil : Ruled [] []
  | unended {line : List Char} : IsLine line → line ≠ [] → Ruled [line] line
  | ended {line ending text : List Char} {lines : List (List Char)} : IsLine line →
      IsBreak ending → Ruled lines text → Ruled (line :: lines) (line ++ (ending ++ text))

theorem splitLines_end {c : Char} {text : List Char} (hc : isLineEnd c = true)
    (h : c = '\r' → text.head? ≠ some '\n') : splitLines (c :: text) = [] :: splitLines text := by
  rw [splitLines.eq_3]
  · rw [if_pos hc]
  · rintro rest rfl rfl
    exact h rfl rfl

/-- The lines of a text rule it. -/
theorem ruled_splitLines (text : List Char) : Ruled (splitLines text) text := by
  fun_induction splitLines text with
  | case1 => exact .nil
  | case2 rest ih => exact .ended isLine_nil (.inl rfl) ih
  | case3 c rest _ hc ih => exact .ended isLine_nil (.inr ⟨c, hc, rfl⟩) ih
  | case4 c rest _ hc ih =>
    have hinner : isLineEnd c = false := Bool.eq_false_iff.2 hc
    generalize splitLines rest = lines at ih
    cases ih with
    | nil => exact .unended (isLine_cons.2 ⟨hinner, isLine_nil⟩) (List.cons_ne_nil c [])
    | unended hline _ => exact .unended (isLine_cons.2 ⟨hinner, hline⟩) (List.cons_ne_nil c _)
    | ended hline hending hrest => exact .ended (isLine_cons.2 ⟨hinner, hline⟩) hending hrest

section Filter

variable {p : List Char → Bool} {lines lines' : List (List Char)} {ending text text' : List Char}

/-- What follows a line end has the lines that it has alone, but for an empty one: a line feed is no
end of its own after a carriage return. -/
theorem exists_splitLines_break (hp : p [] = false) (h : IsBreak ending) (text : List Char) :
    ∃ lines, splitLines (ending ++ text) = [] :: lines ∧
      lines.filter p = (splitLines text).filter p := by
  obtain rfl | ⟨c, hc, rfl⟩ := h
  · exact ⟨_, rfl, rfl⟩
  by_cases hjoint : c = '\r' ∧ text.head? = some '\n'
  · -- The line feed belongs to the line end before it here, and is an empty line when alone.
    obtain ⟨rfl, hfeed⟩ := hjoint
    obtain ⟨rest, rfl⟩ := List.head?_eq_some_iff.1 hfeed
    refine ⟨splitLines rest, rfl, ?_⟩
    have halone : splitLines ('\n' :: rest) = [] :: splitLines rest :=
      splitLines_end (by decide) nofun
    rw [halone, List.filter_cons_of_neg (by rw [hp]; decide)]
  · exact ⟨_, splitLines_end hc fun hreturn hfeed => hjoint ⟨hreturn, hfeed⟩, rfl⟩

/-- All ways to rule a text agree but for empty lines. -/
theorem Ruled.filter_eq (h : Ruled lines text) (hp : p [] = false) :
    (splitLines text).filter p = lines.filter p := by
  induction h with
  | nil => rfl
  | unended hline hne => rw [splitLines_line hline hne]
  | @ended line ending text lines hline hending _ ih =>
    obtain ⟨rest, hrest, hfilter⟩ := exists_splitLines_break hp hending text
    rw [splitLines_append hline hrest, List.filter_cons, List.filter_cons, hfilter, ih]

/-- Two texts with a line end between them can be ruled as both are. -/
theorem Ruled.append (h : Ruled lines text) (h' : Ruled lines' text') (hending : IsBreak ending)
    (hp : p [] = false) : ∃ all, Ruled all (text ++ (ending ++ text')) ∧
      all.filter p = lines.filter p ++ lines'.filter p := by
  -- The line end closes the last line of the first text, or an empty one when none is open.
  induction h with
  | nil =>
    refine ⟨[] :: lines', .ended isLine_nil hending h', ?_⟩
    rw [List.filter_cons_of_neg (by rw [hp]; decide), List.filter_nil, List.nil_append]
  | @unended line hline _ =>
    refine ⟨line :: lines', .ended hline hending h', ?_⟩
    rw [← List.filter_append, List.singleton_append]
  | @ended line ending text lines hline hbreak _ ih =>
    obtain ⟨all, hall, hfilter⟩ := ih
    refine ⟨line :: all, ?_, ?_⟩
    · rw [List.append_assoc, List.append_assoc]
      exact .ended hline hbreak hall
    · rw [List.filter_cons, List.filter_cons, hfilter]
      split <;> rfl

/-- Two texts with a line end between them have the lines of both but for empty ones, whatever the
line end becomes where they meet. -/
theorem filter_splitLines_join (hp : p [] = false) (hending : IsBreak ending)
    (text text' : List Char) : (splitLines (text ++ (ending ++ text'))).filter p =
      (splitLines text).filter p ++ (splitLines text').filter p := by
  obtain ⟨all, hall, hfilter⟩ :=
    (ruled_splitLines text).append (ruled_splitLines text') hending hp
  rw [hall.filter_eq hp, hfilter]

end Filter

def strippedLines (text : List Char) : List (List Char) :=
  (splitLines text).map (List.rdropWhile (· == '\r'))

/-- Carriage returns end lines, so no line has any. -/
theorem strippedLines_eq (text : List Char) : strippedLines text = splitLines text := by
  have hline : ∀ line ∈ splitLines text, line.rdropWhile (· == '\r') = id line := by
    intro line hline
    rw [id, List.rdropWhile_eq_self_iff]
    intro hne hlast
    have hends := isLineEnd_of_mem_splitLines text line hline _ (List.getLast_mem hne)
    rw [eq_of_beq hlast] at hends
    exact absurd hends (by decide)
  rw [strippedLines, List.map_congr_left hline, List.map_id]

end ProjectCheck.Text
