import ProjectCheck.Text.Digit

/-!
Whole numbers are read back from their decimal digits. The digits are those of the ASCII alphabet,
and the first of them is no nought unless the number is nought itself.
-/
namespace ProjectCheck.Text

theorem isAsciiDigit_iff (c : Char) : isAsciiDigit c = true ↔ 48 ≤ c.toNat ∧ c.toNat ≤ 57 := by
  simp only [isAsciiDigit, Bool.and_eq_true, decide_eq_true_eq]
  exact Iff.rfl

theorem isAsciiDigit_of_isDigit {c : Char} (h : c.isDigit = true) : isAsciiDigit c = true := by
  rw [isAsciiDigit_iff]
  simp only [Char.isDigit, Bool.and_eq_true, decide_eq_true_eq] at h
  exact ⟨h.1, h.2⟩

theorem isAsciiDigit_of_mem_toDigits {c : Char} {n : Nat} (h : c ∈ Nat.toDigits 10 n) :
    isAsciiDigit c = true :=
  isAsciiDigit_of_isDigit (Nat.isDigit_of_mem_toDigits (by omega) (by omega) h)

/-- The digits of the ASCII alphabet come first among those of all scripts. -/
theorem digitValue?_ascii {c : Char} (h : isAsciiDigit c = true) :
    digitValue? c = some (c.toNat - 48) := by
  rw [isAsciiDigit_iff] at h
  have hfirst : (48 ≤ c.toNat && c.toNat ≤ 48 + 9) = true := by
    simp only [Bool.and_eq_true, decide_eq_true_eq]
    omega
  have hzeros : zeroDigits = 48 :: zeroDigits.tail := rfl
  rw [digitValue?, hzeros, List.find?_cons]
  simp only [hfirst, Option.map_some]

theorem foldl_digits {digits : List Char} (h : ∀ c ∈ digits, isAsciiDigit c = true) (n : Nat) :
    digits.foldl (fun total c => 10 * total + (digitValue? c).getD 0) n =
      Nat.ofDigitChars 10 digits n := by
  induction digits generalizing n with
  | nil => rfl
  | cons c rest ih =>
    have hrest : ∀ d ∈ rest, isAsciiDigit d = true := fun d hd => h d (List.mem_cons_of_mem c hd)
    rw [List.foldl_cons, ih hrest, Nat.ofDigitChars_cons,
      digitValue?_ascii (h c (List.mem_cons_self ..))]
    rfl

/-- A whole number is read back from its digits. -/
theorem digitsValue_toDigits (n : Nat) : digitsValue (Nat.toDigits 10 n) = n := by
  rw [digitsValue, foldl_digits fun c => isAsciiDigit_of_mem_toDigits]
  exact Nat.ofDigitChars_ten_toDigits

/-- No number but nought starts with a nought. -/
theorem head_toDigits_ne_zero {n : Nat} (h : n ≠ 0) :
    (Nat.toDigits 10 n).head? ≠ some '0' := by
  induction n using Nat.strongRecOn with
  | ind n ih =>
    by_cases hsmall : n < 10
    · rw [Nat.toDigits_of_lt_base hsmall]
      have : ∀ d : Fin 10, d.val ≠ 0 → [Nat.digitChar d.val].head? ≠ some '0' := by decide
      exact this ⟨n, hsmall⟩ h
    · have hrest := ih (n / 10) (by omega) (by omega)
      rw [Nat.toDigits_of_base_le (by omega) (by omega)]
      cases hd : Nat.toDigits 10 (n / 10) with
      | nil => exact absurd hd Nat.toDigits_ne_nil
      | cons d rest => simpa only [hd, List.cons_append, List.head?_cons] using hrest

end ProjectCheck.Text
