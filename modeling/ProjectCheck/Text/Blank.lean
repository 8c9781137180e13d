/-!
Properties of characters as tables of closed ranges of their numbers, and the first of them: a
character is blank when it has the White_Space property or is one of the four information
separators U+001C to U+001F.
-/
namespace ProjectCheck.Text

abbrev CodeRanges := List (Nat × Nat)

def CodeRanges.has (table : CodeRanges) (n : Nat) : Bool :=
  table.any fun range => range.1 ≤ n && n ≤ range.2

theorem CodeRanges.has_iff (table : CodeRanges) (n : Nat) :
    table.has n = true ↔ ∃ range ∈ table, range.1 ≤ n ∧ n ≤ range.2 := by
  simp [CodeRanges.has]

def blankRanges : CodeRanges := [
  (9, 13), (28, 32), (133, 133), (160, 160), (5760, 5760), (8192, 8202), (8232, 8233),
  (8239, 8239), (8287, 8287), (12288, 12288)]

def isBlank (c : Char) : Bool :=
  blankRanges.has c.toNat

def dropBlanks (s : List Char) : List Char :=
  s.dropWhile isBlank

def trimBlanks (s : List Char) : List Char :=
  (dropBlanks (dropBlanks s).reverse).reverse

def isBlankText (s : List Char) : Bool :=
  s.all isBlank

theorem dropBlanks_eq_nil_iff (s : List Char) : dropBlanks s = [] ↔ isBlankText s = true := by
  induction s with
  | nil => simp [dropBlanks, isBlankText]
  | cons c rest ih =>
    by_cases hc : isBlank c = true
    · simpa [dropBlanks, isBlankText, hc] using ih
    · simp [dropBlanks, isBlankText, hc]

theorem trimBlanks_eq_nil_iff (s : List Char) : trimBlanks s = [] ↔ isBlankText s = true := by
  constructor
  · intro h
    rw [trimBlanks, List.reverse_eq_nil_iff, dropBlanks_eq_nil_iff] at h
    rw [← dropBlanks_eq_nil_iff]
    cases hd : dropBlanks s with
    | nil => rfl
    | cons c rest =>
      have hc : isBlank c = false := by
        have := List.head?_dropWhile_not isBlank s
        rw [show s.dropWhile isBlank = c :: rest from hd] at this
        simpa using this
      rw [hd] at h
      simp [isBlankText, hc] at h
  · intro h
    rw [trimBlanks, (dropBlanks_eq_nil_iff s).2 h]
    rfl

end ProjectCheck.Text
