import ProjectCheck.Json.Reader
import ProjectCheck.Proofs.Text.Digits
import ProjectCheck.Proofs.Text.Runs

/-!
Numbers are read to their end. What is written for a number has a form of which the reader takes all
and nothing of what follows it; a whole number is read as itself.
-/
namespace ProjectCheck.Json

open Text Decimal

def EndsValue (rest : List Char) : Prop :=
  ∀ c, rest.head? = some c → c = ',' ∨ c = ']' ∨ c = '}'

theorem EndsValue.stops {rest : List Char} (h : EndsValue rest) : Stops isAsciiDigit rest := by
  intro c hc
  rcases h c hc with rfl | rfl | rfl <;> decide

/-- A number in its parts: a sign, the digits before and after the point, and a power of ten with a
sign of its own. -/
structure NumberText where
  negative : Bool
  whole : List Char
  fraction : List Char
  power : Option (Bool × List Char)

namespace NumberText

def fractionChars : List Char → List Char
  | [] => []
  | fraction => '.' :: fraction

def powerChars : Option (Bool × List Char) → List Char
  | none => []
  | some (negative, digits) => 'e' :: (if negative then '-' else '+') :: digits

def unsigned (t : NumberText) : List Char :=
  t.whole ++ (fractionChars t.fraction ++ powerChars t.power)

def chars (t : NumberText) : List Char :=
  if t.negative then '-' :: t.unsigned else t.unsigned

structure WellFormed (t : NumberText) : Prop where
  whole_digits : ∀ c ∈ t.whole, isAsciiDigit c = true
  whole_head : t.whole = ['0'] ∨ ∃ c rest, t.whole = c :: rest ∧ c ≠ '0'
  fraction_digits : ∀ c ∈ t.fraction, isAsciiDigit c = true
  power_digits : ∀ p, t.power = some p → p.2 ≠ [] ∧ ∀ c ∈ p.2, isAsciiDigit c = true

def powerValue : Option (Bool × List Char) → Option Int
  | none => none
  | some (negative, digits) => some (applySign negative (digitsValue digits))

def value (t : NumberText) : Except ReadFault Json :=
  if t.fraction.isEmpty && t.power.isNone then
    if t.whole.length > digitLimit then .error (.tooManyDigits t.whole.length)
    else .ok (.int (applySign t.negative (digitsValue t.whole)))
  else .ok (.float (ofParts t.negative t.whole t.fraction ((powerValue t.power).getD 0)))

variable {t : NumberText} {rest : List Char}

theorem stops_power (h : EndsValue rest) (power : Option (Bool × List Char)) :
    Stops isAsciiDigit (powerChars power ++ rest) := by
  cases power with
  | none => exact h.stops
  | some p => exact Stops.cons (by decide)

theorem stops_fraction (h : EndsValue rest) (t : NumberText) :
    Stops isAsciiDigit (fractionChars t.fraction ++ (powerChars t.power ++ rest)) := by
  cases t.fraction with
  | nil => exact stops_power h t.power
  | cons c fraction => exact Stops.cons (by decide)

theorem wholePart_append (ht : t.WellFormed) (rest : List Char) (h : Stops isAsciiDigit rest) :
    wholePart (t.whole ++ rest) = some (t.whole, rest) := by
  rcases ht.whole_head with hnought | ⟨c, digits, hwhole, hc⟩
  · rw [hnought]
    rfl
  · have hall := ht.whole_digits
    rw [hwhole] at hall ⊢
    have hdigits : ∀ d ∈ digits, isAsciiDigit d = true :=
      fun d hd => hall d (List.mem_cons_of_mem c hd)
    rw [List.cons_append, wholePart]
    · rw [hall c (List.mem_cons_self ..), if_pos rfl, takeWhile_run hdigits h,
        dropWhile_run hdigits h]
    · exact hc

theorem fractionPart_append (ht : t.WellFormed) (h : EndsValue rest) :
    fractionPart (fractionChars t.fraction ++ (powerChars t.power ++ rest)) =
      (t.fraction, powerChars t.power ++ rest) := by
  have hall := ht.fraction_digits
  cases hf : t.fraction with
  | nil =>
    simp only [fractionChars, List.nil_append]
    cases hp : t.power with
    | some p => rfl
    | none =>
      simp only [powerChars, List.nil_append]
      unfold fractionPart
      split
      · exact absurd (h '.' rfl) (by decide)
      · rfl
  | cons c fraction =>
    rw [hf] at hall
    have hstop := stops_power h t.power
    simp only [fractionChars, List.cons_append, fractionPart]
    rw [← List.cons_append, takeWhile_run hall hstop, dropWhile_run hall hstop]
    rfl

theorem powerPart_append (ht : t.WellFormed) (h : EndsValue rest) :
    powerPart (powerChars t.power ++ rest) = (powerValue t.power, rest) := by
  cases hp : t.power with
  | none =>
    simp only [powerChars, powerValue, List.nil_append]
    cases rest with
    | nil => rfl
    | cons c rest =>
      have hc : ¬ (c = 'e' ∨ c = 'E') := by
        rcases h c rfl with rfl | rfl | rfl <;> decide
      rw [powerPart, if_neg hc]
  | some p =>
    obtain ⟨negative, digits⟩ := p
    obtain ⟨hne, hall⟩ := ht.power_digits _ hp
    have hempty : digits.isEmpty = false := by
      rw [List.isEmpty_eq_false_iff]
      exact hne
    have hsign : splitSign ((if negative then '-' else '+') :: (digits ++ rest)) =
        (negative, digits ++ rest) := by
      cases negative <;> rfl
    simp only [powerChars, powerValue, List.cons_append, powerPart]
    rw [if_pos (Or.inl trivial)]
    simp only [hsign, takeWhile_run hall h.stops, dropWhile_run hall h.stops, hempty]
    rfl

/-- The whole part starts with a digit, so that no sign is seen where there is none. -/
theorem exists_unsigned_eq (ht : t.WellFormed) (rest : List Char) :
    ∃ c tail, t.unsigned ++ rest = c :: tail ∧ isAsciiDigit c = true := by
  rcases ht.whole_head with hw | ⟨c, digits, hw, -⟩
  · refine ⟨'0', fractionChars t.fraction ++ (powerChars t.power ++ rest), ?_, by decide⟩
    simp only [unsigned, hw, List.cons_append, List.nil_append, List.append_assoc]
  · refine ⟨c, digits ++ (fractionChars t.fraction ++ (powerChars t.power ++ rest)), ?_, ?_⟩
    · simp only [unsigned, hw, List.cons_append, List.append_assoc]
    · exact ht.whole_digits c (by rw [hw]; exact List.mem_cons_self ..)

theorem splitMinus_append (ht : t.WellFormed) (rest : List Char) :
    splitMinus (t.chars ++ rest) = (t.negative, t.unsigned ++ rest) := by
  cases hn : t.negative with
  | true =>
    simp only [chars, hn, if_true]
    rfl
  | false =>
    obtain ⟨c, tail, heq, hc⟩ := exists_unsigned_eq ht rest
    simp only [chars, hn, Bool.false_eq_true, if_false, heq]
    unfold splitMinus
    split
    · rename_i heq'
      obtain ⟨rfl, -⟩ := List.cons.inj heq'
      exact absurd hc (by decide)
    · rfl

/-- The reader of numbers takes all of a number and nothing of what follows. -/
theorem readNumber_append (ht : t.WellFormed) (h : EndsValue rest) :
    readNumber (t.chars ++ rest) = t.value.map fun number => (number, rest) := by
  have hbody : t.unsigned ++ rest =
      t.whole ++ (fractionChars t.fraction ++ (powerChars t.power ++ rest)) := by
    simp only [unsigned, List.append_assoc]
  have hnone : (powerValue t.power).isNone = t.power.isNone := by
    cases t.power <;> rfl
  simp only [readNumber, splitMinus_append ht, hbody, wholePart_append ht _ (stops_fraction h t),
    fractionPart_append ht h, powerPart_append ht h, hnone, value]
  split
  · split <;> rfl
  · rfl

/-- No word starts with a digit, nor with a minus sign and a digit. -/
theorem word_not_prefix {c : Char} (hc : isAsciiDigit c = true) (tail : List Char)
    {entry : String × Json} (hentry : entry ∈ wordValues) :
    entry.1.toList.isPrefixOf (c :: tail) = false ∧
      entry.1.toList.isPrefixOf ('-' :: c :: tail) = false := by
  have hne : ∀ w, isAsciiDigit w = false → (w == c) = false := by
    intro w hw
    refine beq_eq_false_iff_ne.2 ?_
    rintro rfl
    rw [hc] at hw
    exact absurd hw (by decide)
  have hcons : ∀ (w : Char) (word : List Char), isAsciiDigit w = false → (w == '-') = false →
      (w :: word).isPrefixOf (c :: tail) = false ∧
        (w :: word).isPrefixOf ('-' :: c :: tail) = false := by
    intro w word hw hminus
    rw [List.isPrefixOf, List.isPrefixOf, hne w hw, hminus]
    exact ⟨rfl, rfl⟩
  simp only [wordValues, List.mem_cons, List.not_mem_nil, or_false] at hentry
  rcases hentry with rfl | rfl | rfl | rfl | rfl | rfl
  · rw [show ("null", Json.null).1.toList = ['n', 'u', 'l', 'l'] from rfl]
    exact hcons 'n' _ (by decide) (by decide)
  · rw [show ("true", bool true).1.toList = ['t', 'r', 'u', 'e'] from rfl]
    exact hcons 't' _ (by decide) (by decide)
  · rw [show ("false", bool false).1.toList = ['f', 'a', 'l', 's', 'e'] from rfl]
    exact hcons 'f' _ (by decide) (by decide)
  · rw [show ("NaN", float .undefined).1.toList = ['N', 'a', 'N'] from rfl]
    exact hcons 'N' _ (by decide) (by decide)
  · rw [show ("Infinity", float (.infinite false)).1.toList = 'I' :: "nfinity".toList from rfl]
    exact hcons 'I' _ (by decide) (by decide)
  · rw [show ("-Infinity", float (.infinite true)).1.toList = '-' :: 'I' :: "nfinity".toList
      from rfl, List.isPrefixOf, List.isPrefixOf, List.isPrefixOf, hne '-' (by decide),
      hne 'I' (by decide)]
    exact ⟨rfl, rfl⟩

/-- No word stands where a number starts. -/
theorem findSome?_words (ht : t.WellFormed) (rest : List Char) :
    (wordValues.findSome? fun (word, value) =>
      (afterWord? word.toList (t.chars ++ rest)).map (value, ·)) = none := by
  obtain ⟨c, tail, heq, hc⟩ := exists_unsigned_eq ht rest
  rw [List.findSome?_eq_none_iff]
  intro entry hentry
  have hword : entry.1.toList.isPrefixOf (t.chars ++ rest) = false := by
    obtain ⟨hplain, hsigned⟩ := word_not_prefix hc tail hentry
    cases hn : t.negative with
    | false => simpa only [chars, hn, Bool.false_eq_true, if_false, heq] using hplain
    | true => simpa only [chars, hn, if_true, List.cons_append, heq] using hsigned
  obtain ⟨word, value⟩ := entry
  simp only [afterWord?, hword, Bool.false_eq_true, if_false, Option.map_none]

/-- A number is read as its value wherever a value may stand. -/
theorem readScalar_append (ht : t.WellFormed) (h : EndsValue rest) :
    readScalar (t.chars ++ rest) = t.value.map fun number => (number, rest) := by
  rw [readScalar, findSome?_words ht]
  exact readNumber_append ht h

end NumberText

end ProjectCheck.Json
