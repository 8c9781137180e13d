import ProjectCheck.Text.Integer

/-!
Runs of digits are whole numbers. The digits may be of any script and even of several; none of them
is blank or a sign, so a run is read as it stands, and only its length can stop it from being read.
-/
namespace ProjectCheck.Text

theorem isDigit_iff (c : Char) :
    isDigit c = true ↔ ∃ nought ∈ zeroDigits, nought ≤ c.toNat ∧ c.toNat ≤ nought + 9 := by
  simp [isDigit, digitValue?]

/-- The table of digits and the table of blanks are apart. -/
theorem digits_apart_from_blanks :
    ∀ range ∈ blankRanges, ∀ nought ∈ zeroDigits, range.2 < nought ∨ nought + 9 < range.1 := by
  decide +kernel

theorem isBlank_of_isDigit {c : Char} (h : isDigit c = true) : isBlank c = false := by
  obtain ⟨nought, hnought, hlow, hhigh⟩ := (isDigit_iff c).1 h
  rw [isBlank, Bool.eq_false_iff, Ne, CodeRanges.has_iff]
  rintro ⟨range, hrange, hfrom, hto⟩
  have hapart := digits_apart_from_blanks range hrange nought hnought
  omega

theorem isPadding_of_isDigit {c : Char} (h : isDigit c = true) : isPadding c = false := by
  rw [isPadding, isBlank_of_isDigit h, Bool.false_and]

theorem splitSign_digits {c : Char} (h : isDigit c = true) (rest : List Char) :
    splitSign (c :: rest) = (false, c :: rest) := by
  have hminus : c ≠ '-' := by
    rintro rfl
    exact absurd h (by decide)
  have hplus : c ≠ '+' := by
    rintro rfl
    exact absurd h (by decide)
  unfold splitSign
  split
  · simp_all
  · simp_all
  · rfl

theorem digitRun_digits {run : List Char} (h : ∀ c ∈ run, isDigit c = true) :
    digitRun true run = some (run, []) := by
  induction run with
  | nil => rfl
  | cons c run ih =>
    obtain ⟨hc, hrun⟩ := List.forall_mem_cons.1 h
    rw [digitRun, if_pos hc, ih hrun]
    rfl

/-- A run of digits is read as a whole number that is not negative, unless the run is too long. -/
theorem readInteger_digits {run : List Char} (hne : run ≠ [])
    (h : ∀ c ∈ run, isDigit c = true) :
    readInteger (String.ofList run) = (readDigits run).map Int.ofNat := by
  obtain ⟨c, rest, rfl⟩ := List.exists_cons_of_ne_nil hne
  obtain ⟨hc, hrest⟩ := List.forall_mem_cons.1 h
  have hpadding : (c :: rest).dropWhile isPadding = c :: rest :=
    List.dropWhile_cons_of_neg (by rw [isPadding_of_isDigit hc]; decide)
  have hrun : digitRun false (c :: rest) = some (c :: rest, []) := by
    rw [digitRun, if_pos hc, digitRun_digits hrest]
    rfl
  rw [readInteger, String.toList_ofList, hpadding, splitSign_digits hc]
  simp only [hrun]
  cases readDigits (c :: rest) <;> rfl

end ProjectCheck.Text
