import ProjectCheck.Json.Reader

/-!
Strings and names are read back from a JSON text. Every escape gives the code of the character it
was written for, and the reader stops at the closing mark.
-/
namespace ProjectCheck.Json

open Text

def codesOf (s : List Char) : List Nat := s.map Char.toNat

def consCode (code : Nat) (read : Option (List Nat × List Char)) : Option (List Nat × List Char) :=
  read.map fun (codes, after) => (code :: codes, after)

/-- A control character is escaped by four hexadecimal digits. -/
theorem fourDigits?_control {n : Nat} (h : n < 0x20) :
    ∃ a b c d, hexDigits 4 n = [a, b, c, d] ∧ fourDigits? a b c d = some n := by
  refine ⟨hexDigit (n / 16 / 16 / 16 % 16), hexDigit (n / 16 / 16 % 16), hexDigit (n / 16 % 16),
    hexDigit (n % 16), rfl, ?_⟩
  have hall : ∀ k : Fin 0x20, fourDigits? (hexDigit (k.val / 16 / 16 / 16 % 16))
      (hexDigit (k.val / 16 / 16 % 16)) (hexDigit (k.val / 16 % 16))
      (hexDigit (k.val % 16)) = some k.val := by decide
  exact hall ⟨n, h⟩

/-- An escape by digits gives its code when this starts no surrogate pair, whatever follows. -/
theorem readString_digits {a b c d : Char} {n : Nat} (rest : List Char)
    (hdigits : fourDigits? a b c d = some n) (hn : isHighSurrogate n = false) :
    readString ('\\' :: 'u' :: a :: b :: c :: d :: rest) = consCode n (readString rest) := by
  rw [readString.eq_def]
  split
  case h_1 | h_2 => simp_all
  case h_6 hfree heq =>
    simp only [List.cons.injEq] at heq
    exact absurd heq.2.symm (hfree _ _ heq.1.symm)
  case h_3 heq =>
    simp only [List.cons.injEq, true_and] at heq
    obtain ⟨rfl, rfl, rfl, rfl, rfl⟩ := heq
    simp only [hdigits, Option.bind_eq_bind, Option.bind_some, hn, Bool.false_eq_true, if_false]
    cases readString _ <;> rfl
  case h_4 heq =>
    simp only [List.cons.injEq, true_and] at heq
    obtain ⟨rfl, rfl, rfl, rfl, rfl⟩ := heq
    simp only [hdigits, Option.bind_eq_bind, Option.bind_some]
    cases readString _ <;> rfl
  case h_5 hshort heq =>
    simp only [List.cons.injEq, true_and] at heq
    exact absurd heq.2.symm (hshort a b c d rest heq.1.symm)

/-- An escape by one letter gives the code of the character that the letter stands for. -/
theorem readString_short {letter c : Char} (rest : List Char) (hletter : letter ≠ 'u')
    (hc : shortEscape? letter = some c) :
    readString ('\\' :: letter :: rest) = consCode c.toNat (readString rest) := by
  rw [readString.eq_def]
  split
  case h_1 | h_2 | h_3 | h_4 => simp_all
  case h_6 hfree heq =>
    simp only [List.cons.injEq] at heq
    exact absurd heq.2.symm (hfree _ _ heq.1.symm)
  case h_5 heq =>
    simp only [List.cons.injEq, true_and] at heq
    obtain ⟨rfl, rfl⟩ := heq
    simp only [hc, Option.bind_eq_bind, Option.bind_some]
    cases readString _ <;> rfl

/-- Any other character that is no control stands for itself. -/
theorem readString_plain {c : Char} (rest : List Char) (hmark : c ≠ '"') (hescape : c ≠ '\\')
    (hcontrol : ¬ c.toNat < 0x20) :
    readString (c :: rest) = consCode c.toNat (readString rest) := by
  rw [readString.eq_def]
  split
  case h_1 | h_2 | h_3 | h_4 | h_5 => simp_all
  case h_6 heq =>
    simp only [List.cons.injEq] at heq
    obtain ⟨rfl, rfl⟩ := heq
    rw [if_neg hcontrol]
    cases readString _ <;> rfl

/-- An escaped character is read as its code. -/
theorem readString_escapeChar (c : Char) (rest : List Char) :
    readString (escapeChar c ++ rest) = consCode c.toNat (readString rest) := by
  have hshort : ∀ letter : Char, letter ≠ 'u' → shortEscape? letter = some c →
      readString (['\\', letter] ++ rest) = consCode c.toNat (readString rest) :=
    fun _ hletter hc => readString_short rest hletter hc
  rw [escapeChar]
  split
  · exact hshort '"' (by decide) (by simp_all [shortEscape?])
  split
  · exact hshort '\\' (by decide) (by simp_all [shortEscape?])
  split
  · exact hshort 'n' (by decide) (by simp_all [shortEscape?])
  split
  · exact hshort 'r' (by decide) (by simp_all [shortEscape?])
  split
  · exact hshort 't' (by decide) (by simp_all [shortEscape?])
  split
  · exact hshort 'f' (by decide) (by simp_all [shortEscape?])
  split
  · exact hshort 'b' (by decide) (by simp_all [shortEscape?])
  split
  · rename_i hcontrol
    obtain ⟨d₁, d₂, d₃, d₄, hdigits, hcode⟩ := fourDigits?_control hcontrol
    have hlow : isHighSurrogate c.toNat = false := by
      simp only [isHighSurrogate, Bool.and_eq_false_iff, decide_eq_false_iff_not]
      omega
    rw [hdigits]
    exact readString_digits rest hcode hlow
  · exact readString_plain rest (by assumption) (by assumption) (by assumption)

/-- The body of a written string is read up to its closing mark. -/
theorem readString_escaped (s rest : List Char) :
    readString (s.flatMap escapeChar ++ '"' :: rest) = some (codesOf s, rest) := by
  induction s with
  | nil => rfl
  | cons c s ih =>
    rw [List.flatMap_cons, List.append_assoc, readString_escapeChar, ih]
    rfl

/-- No character has the code of a surrogate. -/
theorem hasLoneSurrogate_codesOf (s : List Char) : hasLoneSurrogate (codesOf s) = false := by
  simp only [hasLoneSurrogate, codesOf, List.any_map, List.any_eq_false]
  intro c _ hc
  simp only [Function.comp_apply, isHighSurrogate, isLowSurrogate, Bool.or_eq_true,
    Bool.and_eq_true, decide_eq_true_eq] at hc
  have hvalid : c.toNat.isValidChar := c.valid
  rcases hvalid with h | h <;> omega

theorem replaced_codesOf (s : List Char) : replaced (codesOf s) = String.ofList s := by
  rw [replaced, codesOf, List.map_map]
  congr 1
  have hchar : ∀ c ∈ s, ((fun n => if h : n.isValidChar then Char.ofNatAux n h else '\uFFFD') ∘
      Char.toNat) c = c := by
    intro c _
    have hvalid : c.toNat.isValidChar := c.valid
    rw [Function.comp_apply, dif_pos hvalid]
    rfl
  rw [List.map_congr_left hchar, List.map_id']

theorem ofCodes_codesOf (s : List Char) : ofCodes (codesOf s) = .string (String.ofList s) := by
  rw [ofCodes, hasLoneSurrogate_codesOf, replaced_codesOf]
  rfl

theorem memberOf_codesOf (name : String) (value : Json) :
    memberOf (codesOf name.toList) value = (name, value) := by
  rw [memberOf, hasLoneSurrogate_codesOf, replaced_codesOf, String.ofList_toList]
  rfl

end ProjectCheck.Json
