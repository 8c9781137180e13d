import ProjectCheck.Json.Writer
import ProjectCheck.Proofs.Json.NumberText

/-!
Written numbers have the form of which the reader takes all. A whole number is read as itself unless
it has too many digits; a number with a fraction is read as one, and always as the same one.
-/
namespace ProjectCheck.Json

open Text Decimal

namespace NumberText

def ofInt (i : Int) : NumberText := ⟨i < 0, Nat.toDigits 10 i.natAbs, [], none⟩

theorem ofInt_wellFormed (i : Int) : (ofInt i).WellFormed where
  whole_digits _ hc := isAsciiDigit_of_mem_toDigits hc
  whole_head := by
    by_cases hi : i.natAbs = 0
    · exact Or.inl (by rw [ofInt, hi]; rfl)
    · refine Or.inr ?_
      have hhead := head_toDigits_ne_zero hi
      cases hd : Nat.toDigits 10 i.natAbs with
      | nil => exact absurd hd Nat.toDigits_ne_nil
      | cons c rest =>
        rw [hd] at hhead
        exact ⟨c, rest, hd, fun hc => hhead (congrArg some hc)⟩
  fraction_digits _ hc := nomatch hc
  power_digits _ hp := nomatch hp

theorem ofInt_chars (i : Int) : (ofInt i).chars = (toString i).toList := by
  cases i with
  | ofNat n =>
    have h : (toString (Int.ofNat n)).toList = Nat.toDigits 10 n := Nat.toList_repr
    rw [h]
    simp [chars, unsigned, ofInt, fractionChars, powerChars]
  | negSucc n =>
    have h : (toString (Int.negSucc n)).toList = '-' :: Nat.toDigits 10 (n + 1) := by
      change ("-" ++ Nat.repr (n + 1)).toList = _
      rw [String.toList_append, Nat.toList_repr]
      rfl
    rw [h]
    simp [chars, unsigned, ofInt, fractionChars, powerChars, Int.negSucc_lt_zero]

theorem ofInt_value (i : Int) : (ofInt i).value =
    if (Nat.toDigits 10 i.natAbs).length > digitLimit then
      .error (.tooManyDigits (Nat.toDigits 10 i.natAbs).length)
    else .ok (.int i) := by
  have hvalue : applySign (ofInt i).negative (digitsValue (ofInt i).whole) = i := by
    simp only [ofInt, digitsValue_toDigits, applySign, decide_eq_true_eq]
    split <;> omega
  simp only [value, hvalue]
  rfl

theorem dropWhile_concat {p : Char → Bool} {c : Char} (hc : p c = false) (s : List Char) :
    ∃ kept, (s ++ [c]).dropWhile p = kept ++ [c] ∧ ∀ d ∈ kept, d ∈ s := by
  induction s with
  | nil => exact ⟨[], by simp [hc], fun d hd => hd⟩
  | cons d s ih =>
    by_cases hd : p d = true
    · obtain ⟨kept, hkept, hmem⟩ := ih
      refine ⟨kept, ?_, fun e he => List.mem_cons_of_mem d (hmem e he)⟩
      rw [List.cons_append, List.dropWhile_cons_of_pos hd, hkept]
    · exact ⟨d :: s, by rw [List.cons_append, List.dropWhile_cons_of_neg hd], fun e he => he⟩

/-- A positive number has a first significant digit, which is no nought. -/
theorem significantDigits_cons {n : Nat} (hn : n ≠ 0) :
    ∃ c rest, significantDigits n = c :: rest ∧ c ≠ '0' ∧
      ∀ d ∈ c :: rest, isAsciiDigit d = true := by
  have hhead := head_toDigits_ne_zero hn
  have hall : ∀ c ∈ Nat.toDigits 10 n, isAsciiDigit c = true :=
    fun c => isAsciiDigit_of_mem_toDigits
  rw [significantDigits]
  cases hd : Nat.toDigits 10 n with
  | nil => exact absurd hd Nat.toDigits_ne_nil
  | cons c digits =>
    rw [hd] at hhead hall
    have hc : c ≠ '0' := fun h => hhead (congrArg some h)
    obtain ⟨kept, hkept, hmem⟩ :=
      dropWhile_concat (p := (· = '0')) (decide_eq_false hc) digits.reverse
    refine ⟨c, kept.reverse, ?_, hc, List.forall_mem_cons.2 ⟨hall c (List.mem_cons_self ..), ?_⟩⟩
    · rw [List.reverse_cons, hkept, List.reverse_append]
      rfl
    · intro d hd
      exact hall d (List.mem_cons_of_mem c (List.mem_reverse.1 (hmem d (List.mem_reverse.1 hd))))

def IsReal (t : NumberText) : Prop := t.fraction ≠ [] ∨ t.power ≠ none

theorem isAsciiDigit_of_mem_replicate {c : Char} {n : Nat} (h : c ∈ List.replicate n '0') :
    isAsciiDigit c = true := by
  rw [(List.mem_replicate.1 h).2]
  decide

def powerOf (e : Int) : Bool × List Char :=
  (e < 0, if (Nat.toDigits 10 e.natAbs).length < 2 then '0' :: Nat.toDigits 10 e.natAbs
    else Nat.toDigits 10 e.natAbs)

theorem powerOf_digits (e : Int) :
    (powerOf e).2 ≠ [] ∧ ∀ c ∈ (powerOf e).2, isAsciiDigit c = true := by
  have hall : ∀ c ∈ Nat.toDigits 10 e.natAbs, isAsciiDigit c = true :=
    fun c => isAsciiDigit_of_mem_toDigits
  simp only [powerOf]
  split
  · refine ⟨List.cons_ne_nil _ _, ?_⟩
    intro c hc
    rcases List.mem_cons.1 hc with rfl | hc
    · decide
    · exact hall c hc
  · exact ⟨Nat.toDigits_ne_nil, hall⟩

theorem exponentText_toList (e : Int) :
    (exponentText e).toList = powerChars (some (powerOf e)) := by
  have hsign : (if e < 0 then "e-" else "e+").toList =
      ['e', if decide (e < 0) then '-' else '+'] := by
    by_cases he : e < 0 <;> simp [he]
  rw [exponentText, String.toList_append, hsign, String.toList_ofList]
  rfl

def IsUnsignedReal (text : List Char) : Prop :=
  ∃ t : NumberText, t.WellFormed ∧ t.IsReal ∧ text = t.unsigned

theorem isUnsignedReal_fraction {whole fraction : List Char}
    (hwhole : ∀ d ∈ whole, isAsciiDigit d = true)
    (hhead : whole = ['0'] ∨ ∃ c rest, whole = c :: rest ∧ c ≠ '0')
    (hfraction : ∀ d ∈ fraction, isAsciiDigit d = true) (hne : fraction ≠ []) :
    IsUnsignedReal (whole ++ '.' :: fraction) := by
  refine ⟨⟨false, whole, fraction, none⟩, ⟨hwhole, hhead, hfraction, nofun⟩, Or.inl hne, ?_⟩
  cases fraction with
  | nil => exact absurd rfl hne
  | cons c fraction => exact congrArg (whole ++ ·) (List.append_nil _).symm

theorem isUnsignedReal_nought : IsUnsignedReal "0.0".toList :=
  @isUnsignedReal_fraction ['0'] ['0'] (List.forall_mem_singleton.2 rfl) (Or.inl rfl)
    (List.forall_mem_singleton.2 rfl) (List.cons_ne_nil _ _)

theorem isUnsignedReal_positional {c : Char} {rest : List Char} (before : Int) (hc : c ≠ '0')
    (hall : ∀ d ∈ c :: rest, isAsciiDigit d = true) :
    IsUnsignedReal (positional (c :: rest) before).toList := by
  rw [positional]
  split
  · have hfraction : ∀ d ∈ List.replicate (-before).toNat '0' ++ c :: rest,
        isAsciiDigit d = true := by
      intro d hd
      rcases List.mem_append.1 hd with hd | hd
      · exact isAsciiDigit_of_mem_replicate hd
      · exact hall d hd
    rw [String.toList_append, String.toList_ofList, String.toList_ofList]
    exact @isUnsignedReal_fraction ['0'] _ (List.forall_mem_singleton.2 rfl) (Or.inl rfl) hfraction
      (by simp)
  · rename_i hbefore
    obtain ⟨n, hn⟩ : ∃ n, before.toNat = n + 1 := ⟨before.toNat - 1, by omega⟩
    simp only [hn, String.toList_ofList]
    refine isUnsignedReal_fraction ?_ ?_ ?_ ?_
    · intro d hd
      rcases List.mem_append.1 hd with hd | hd
      · exact hall d (List.mem_of_mem_take hd)
      · exact isAsciiDigit_of_mem_replicate hd
    · exact Or.inr ⟨c, rest.take n ++ List.replicate (n + 1 - (c :: rest).length) '0', rfl, hc⟩
    · intro d hd
      split at hd
      · rw [List.mem_singleton.1 hd]
        decide
      · exact hall d (List.mem_of_mem_drop hd)
    · split
      · exact List.cons_ne_nil _ _
      · rename_i hempty
        exact fun h => hempty (List.isEmpty_iff.2 h)

theorem isUnsignedReal_scientific {c : Char} {rest : List Char} (before : Int) (hc : c ≠ '0')
    (hall : ∀ d ∈ c :: rest, isAsciiDigit d = true) :
    IsUnsignedReal (scientific (c :: rest) before).toList := by
  obtain ⟨hdigit, hrest⟩ := List.forall_mem_cons.1 hall
  refine ⟨⟨false, [c], rest, some (powerOf (before - 1))⟩, ⟨?_, ?_, hrest, ?_⟩, ?_, ?_⟩
  · intro d hd
    rw [List.mem_singleton.1 hd]
    exact hdigit
  · exact Or.inr ⟨c, [], rfl, hc⟩
  · rintro p hp
    rw [← Option.some.inj hp]
    exact powerOf_digits _
  · exact Or.inr (by simp)
  · unfold scientific
    rw [String.toList_append, String.toList_ofList, exponentText_toList, unsigned]
    cases rest <;> rfl

/-- A number with a fraction is written in a form that is no whole number, behind its sign. -/
theorem isUnsignedReal_writeDecimal (style : NumberStyle) (d : Decimal) :
    IsUnsignedReal (writeDecimal style d).toList := by
  rw [writeDecimal]
  split
  · exact isUnsignedReal_nought
  · rename_i hd
    obtain ⟨c, rest, hdigits, hc, hall⟩ := significantDigits_cons hd
    simp only [hdigits]
    split
    · exact isUnsignedReal_positional _ hc hall
    · exact isUnsignedReal_scientific _ hc hall

/-- A text that is no whole number stands for a number with a fraction. -/
theorem value_of_isReal {t : NumberText} (h : t.IsReal) :
    t.value =
      .ok (.float (ofParts t.negative t.whole t.fraction ((powerValue t.power).getD 0))) := by
  rw [value, if_neg]
  rcases h with h | h
  · simp [h]
  · cases hp : t.power with
    | none => exact absurd hp h
    | some p => simp

end NumberText

open NumberText

theorem finite_write (negative : Bool) (m : Nat) (e : Int) :
    ∃ t : NumberText, t.WellFormed ∧ t.IsReal ∧
      ((Binary64.finite negative m e).write jsonNumberStyle).toList = t.chars := by
  obtain ⟨t, ht, hreal, htext⟩ : IsUnsignedReal
      (if m = 0 then "0.0" else writeDecimal jsonNumberStyle (shortest m e)).toList := by
    split
    · exact isUnsignedReal_nought
    · exact isUnsignedReal_writeDecimal _ _
  refine ⟨{ t with negative := negative },
    ⟨ht.whole_digits, ht.whole_head, ht.fraction_digits, ht.power_digits⟩, hreal, ?_⟩
  rw [Binary64.write, String.toList_append, htext]
  cases negative <;> rfl

/-- Numbers with a fraction are read to their end, as one number wherever they stand. -/
theorem readScalar_write (x : Binary64) :
    ∃ y, ∀ rest, EndsValue rest →
      readScalar ((x.write jsonNumberStyle).toList ++ rest) = .ok (.float y, rest) := by
  cases x with
  | undefined => exact ⟨.undefined, fun rest _ => rfl⟩
  | infinite negative =>
    cases negative with
    | false => exact ⟨.infinite false, fun rest _ => rfl⟩
    | true => exact ⟨.infinite true, fun rest _ => rfl⟩
  | finite negative m e =>
    obtain ⟨t, ht, hreal, htext⟩ := finite_write negative m e
    refine ⟨ofParts t.negative t.whole t.fraction ((powerValue t.power).getD 0),
      fun rest hrest => ?_⟩
    rw [htext, readScalar_append ht hrest, value_of_isReal hreal]
    rfl

def isScalarStart (c : Char) : Bool :=
  c = '-' || isAsciiDigit c || ['n', 't', 'f', 'N', 'I'].contains c

theorem NumberText.chars_head {t : NumberText} (ht : t.WellFormed) :
    ∃ c tail, t.chars = c :: tail ∧ isScalarStart c = true := by
  obtain ⟨c, tail, heq, hc⟩ := exists_unsigned_eq ht []
  rw [List.append_nil] at heq
  cases hn : t.negative with
  | true => exact ⟨'-', t.unsigned, by rw [chars, hn, if_pos rfl], by decide⟩
  | false =>
    refine ⟨c, tail, ?_, ?_⟩
    · rw [chars, hn, if_neg (by decide), heq]
    · rw [isScalarStart, hc, Bool.or_true, Bool.true_or]

theorem write_int_head (i : Int) :
    ∃ c tail, (toString i).toList = c :: tail ∧ isScalarStart c = true := by
  rw [← ofInt_chars]
  exact chars_head (ofInt_wellFormed i)

theorem write_float_head (x : Binary64) :
    ∃ c tail, (x.write jsonNumberStyle).toList = c :: tail ∧ isScalarStart c = true := by
  cases x with
  | undefined => exact ⟨'N', _, rfl, by decide⟩
  | infinite negative =>
    cases negative with
    | false => exact ⟨'I', _, rfl, by decide⟩
    | true => exact ⟨'-', _, rfl, by decide⟩
  | finite negative m e =>
    obtain ⟨t, ht, -, htext⟩ := finite_write negative m e
    rw [htext]
    exact chars_head ht

end ProjectCheck.Json
