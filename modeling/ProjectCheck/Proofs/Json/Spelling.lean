import ProjectCheck.Proofs.Json.Lossless

/-!
The texts of a value. One value has many: blanks stand between the tokens of a text, the characters
of a string that need an escape have several, and a power of ten may leave out its sign. The reader
takes each of them back to its value and stops behind it, by induction on the text. A text is on one
line here, so that its blanks are spaces and tabs.
-/
namespace ProjectCheck.Json

open Text Decimal

/-! Strings. -/

def NeedsEscape (c : Char) : Prop := c = '"' ∨ c = '\\' ∨ c.toNat < 0x20

inductive CharText : Char → List Char → Prop
  | raw {c : Char} : ¬ NeedsEscape c → CharText c [c]
  | short {c letter : Char} : NeedsEscape c → shortEscape? letter = some c →
      CharText c ['\\', letter]
  | digits {c d₁ d₂ d₃ d₄ : Char} : NeedsEscape c → fourDigits? d₁ d₂ d₃ d₄ = some c.toNat →
      CharText c ['\\', 'u', d₁, d₂, d₃, d₄]

inductive StringText : List Char → List Char → Prop
  | nil : StringText [] []
  | cons {c : Char} {s text rest : List Char} : CharText c text → StringText s rest →
      StringText (c :: s) (text ++ rest)

theorem NeedsEscape.toNat_lt {c : Char} (h : NeedsEscape c) : c.toNat < 0x80 := by
  obtain rfl | rfl | h := h
  · decide
  · decide
  · omega

theorem CharText.read {c : Char} {text : List Char} (h : CharText c text) (rest : List Char) :
    readString (text ++ rest) = consCode c.toNat (readString rest) := by
  cases h with
  | raw hraw =>
    simp only [NeedsEscape, not_or] at hraw
    exact readString_plain rest hraw.1 hraw.2.1 hraw.2.2
  | @short letter _ hletter =>
    have hne : letter ≠ 'u' := by
      rintro rfl
      cases hletter
    exact readString_short rest hne hletter
  | digits hescape hdigits =>
    have hlow : isHighSurrogate c.toNat = false := by
      have hsmall := hescape.toNat_lt
      simp only [isHighSurrogate, Bool.and_eq_false_iff, decide_eq_false_iff_not]
      omega
    exact readString_digits rest hdigits hlow

/-- A string is read up to its closing mark. -/
theorem StringText.read {s text : List Char} (h : StringText s text) (rest : List Char) :
    readString (text ++ '"' :: rest) = some (codesOf s, rest) := by
  induction h with
  | nil => rfl
  | cons hc _ ih =>
    rw [List.append_assoc, hc.read, ih]
    rfl

/-! What may follow a value. -/

def EndsToken (rest : List Char) : Prop :=
  ∀ c, rest.head? = some c → isSpace c = true ∨ c = ',' ∨ c = ']' ∨ c = '}'

theorem EndsToken.stops {rest : List Char} (h : EndsToken rest) : Stops isAsciiDigit rest := by
  intro c hc
  have hmark := h c hc
  simp only [isSpace, Bool.or_eq_true, decide_eq_true_eq] at hmark
  obtain (((rfl | rfl) | rfl) | rfl) | rfl | rfl | rfl := hmark <;> decide

/-- No point and no letter follows a value. -/
theorem EndsToken.ne {rest : List Char} (h : EndsToken rest) {c : Char}
    (hc : rest.head? = some c) : c ≠ '.' ∧ ¬ (c = 'e' ∨ c = 'E') := by
  have hmark := h c hc
  simp only [isSpace, Bool.or_eq_true, decide_eq_true_eq] at hmark
  obtain (((rfl | rfl) | rfl) | rfl) | rfl | rfl | rfl := hmark <;> decide

theorem endsToken_nil : EndsToken [] := fun _ h => nomatch h

def IsGap (gap : List Char) : Prop := ∀ c ∈ gap, c = ' ' ∨ c = '\t'

theorem IsGap.isSpace {gap : List Char} (h : IsGap gap) : ∀ c ∈ gap, isSpace c = true := by
  intro c hc
  obtain rfl | rfl := h c hc <;> decide

theorem IsGap.skipSpace {gap : List Char} (h : IsGap gap) (rest : List Char) :
    skipSpace (gap ++ rest) = skipSpace rest :=
  List.dropWhile_append_of_pos h.isSpace

/-- A gap and a mark after a value end it. -/
theorem IsGap.endsToken {gap : List Char} (h : IsGap gap) {c : Char}
    (hc : c = ',' ∨ c = ']' ∨ c = '}') (rest : List Char) : EndsToken (gap ++ c :: rest) := by
  cases gap with
  | nil =>
    intro d hd
    rw [← Option.some.inj hd]
    exact .inr hc
  | cons space gap =>
    intro d hd
    rw [← Option.some.inj hd]
    exact .inl (h.isSpace space (List.mem_cons_self ..))

/-! Numbers. -/

/-- The ways to write a power of ten: a letter of either case, and a sign that may be left out when
it is plus. -/
inductive PowerText : Option (Bool × List Char) → List Char → Prop
  | none : PowerText none []
  | signed {letter : Char} (negative : Bool) (digits : List Char) : letter = 'e' ∨ letter = 'E' →
      PowerText (some (negative, digits)) (letter :: (if negative then '-' else '+') :: digits)
  | unsigned {letter : Char} (digits : List Char) : letter = 'e' ∨ letter = 'E' →
      PowerText (some (false, digits)) (letter :: digits)

namespace NumberText

def base (t : NumberText) : NumberText := { t with power := none }

theorem WellFormed.base {t : NumberText} (h : t.WellFormed) : t.base.WellFormed :=
  ⟨h.whole_digits, h.whole_head, h.fraction_digits, fun _ hp => nomatch hp⟩

theorem base_unsigned (t : NumberText) : t.base.unsigned = t.whole ++ fractionChars t.fraction := by
  rw [unsigned, base, powerChars, List.append_nil]

variable {t : NumberText} {power rest : List Char}

theorem stops_powerText (hpower : PowerText t.power power) (h : EndsToken rest) :
    Stops isAsciiDigit (power ++ rest) := by
  generalize t.power = p at hpower
  cases hpower with
  | none => exact h.stops
  | signed negative digits hletter | unsigned digits hletter =>
    obtain rfl | rfl := hletter <;> exact Stops.cons (by decide)

theorem powerText_ne (hpower : PowerText t.power power) (h : EndsToken rest) {c : Char}
    (hc : (power ++ rest).head? = some c) : c ≠ '.' := by
  generalize t.power = p at hpower
  cases hpower with
  | none => exact (h.ne hc).1
  | signed negative digits hletter | unsigned digits hletter =>
    obtain rfl := Option.some.inj hc
    obtain rfl | rfl := hletter <;> decide

theorem fractionPart_powerText (ht : t.WellFormed) (hpower : PowerText t.power power)
    (h : EndsToken rest) :
    fractionPart (fractionChars t.fraction ++ (power ++ rest)) = (t.fraction, power ++ rest) := by
  have hall := ht.fraction_digits
  cases hf : t.fraction with
  | nil =>
    rw [fractionChars, List.nil_append, fractionPart.eq_def]
    split
    · rename_i tail heq
      exact absurd rfl (powerText_ne hpower h (congrArg List.head? heq))
    · rfl
  | cons c fraction =>
    rw [hf] at hall
    have hstop := stops_powerText hpower h
    simp only [fractionChars, List.cons_append, fractionPart]
    rw [← List.cons_append, takeWhile_run hall hstop, dropWhile_run hall hstop]
    rfl

theorem powerPart_powerText (ht : t.WellFormed) (hpower : PowerText t.power power)
    (h : EndsToken rest) : powerPart (power ++ rest) = (powerValue t.power, rest) := by
  have hdigits := ht.power_digits
  generalize t.power = p at hpower hdigits
  have hrun : ∀ (letter : Char) (negative : Bool) (digits s : List Char),
      letter = 'e' ∨ letter = 'E' → p = some (negative, digits) →
      splitSign s = (negative, digits ++ rest) →
      powerPart (letter :: s) = (powerValue p, rest) := by
    intro letter negative digits s hletter hp hsign
    obtain ⟨hne, hall⟩ := hdigits _ hp
    have hempty : digits.isEmpty = false := List.isEmpty_eq_false_iff.2 hne
    rw [powerPart, if_pos hletter, hp]
    simp only [hsign, takeWhile_run hall h.stops, dropWhile_run hall h.stops, hempty]
    rfl
  cases hpower with
  | none =>
    cases rest with
    | nil => rfl
    | cons c rest => rw [List.nil_append, powerPart, if_neg (h.ne rfl).2, powerValue]
  | signed negative digits hletter =>
    refine hrun _ negative digits _ hletter rfl ?_
    cases negative <;> rfl
  | unsigned digits hletter =>
    refine hrun _ false digits _ hletter rfl ?_
    -- The digits start with no sign.
    obtain ⟨hne, hall⟩ := hdigits _ rfl
    obtain ⟨d, digits, rfl⟩ := List.exists_cons_of_ne_nil hne
    have hdigit := hall d (List.mem_cons_self ..)
    rw [List.cons_append, splitSign.eq_def]
    split
    · rename_i heq
      rw [(List.cons.inj heq).1] at hdigit
      exact absurd hdigit (by decide)
    · rename_i heq
      rw [(List.cons.inj heq).1] at hdigit
      exact absurd hdigit (by decide)
    · rfl

/-- A number is read as its value, in whatever way its power of ten is written. -/
theorem readScalar_powerText (ht : t.WellFormed) (hpower : PowerText t.power power)
    (h : EndsToken rest) :
    readScalar (t.base.chars ++ (power ++ rest)) = t.value.map fun number => (number, rest) := by
  have hbody : t.base.unsigned ++ (power ++ rest) =
      t.whole ++ (fractionChars t.fraction ++ (power ++ rest)) := by
    rw [base_unsigned, List.append_assoc]
  have hstops : Stops isAsciiDigit (fractionChars t.fraction ++ (power ++ rest)) := by
    generalize t.fraction = fraction
    cases fraction with
    | nil =>
      rw [fractionChars, List.nil_append]
      exact stops_powerText hpower h
    | cons c fraction => exact Stops.cons (by decide)
  have hnone : (powerValue t.power).isNone = t.power.isNone := by
    cases t.power <;> rfl
  rw [readScalar, findSome?_words ht.base]
  simp only [readNumber, splitMinus_append ht.base, hbody, wholePart_append ht _ hstops,
    fractionPart_powerText ht hpower h, powerPart_powerText ht hpower h, hnone, value]
  split
  · split <;> rfl
  · rfl

end NumberText

/-! Values. -/

/-- A part of a text: a value, or the items of an array or the members of an object without their
brackets. -/
inductive Part where
  | value (v : Json)
  | items (vs : List Json)
  | members (ms : Members Json)

inductive Spells : Nat → Part → List Char → Prop
  | nullWord {depth : Nat} : Spells depth (.value .null) ['n', 'u', 'l', 'l']
  | trueWord {depth : Nat} : Spells depth (.value (.bool true)) ['t', 'r', 'u', 'e']
  | falseWord {depth : Nat} : Spells depth (.value (.bool false)) ['f', 'a', 'l', 's', 'e']
  | number {depth : Nat} {t : NumberText} {v : Json} {power : List Char} : t.WellFormed →
      t.value = .ok v → PowerText t.power power → Spells depth (.value v) (t.base.chars ++ power)
  | string {depth : Nat} {s : String} {text : List Char} : StringText s.toList text →
      Spells depth (.value (.string s)) ('"' :: (text ++ ['"']))
  | emptyArray {depth : Nat} {gap : List Char} : IsGap gap →
      Spells (depth + 1) (.value (.array [])) ('[' :: (gap ++ [']']))
  | array {depth : Nat} {vs : List Json} {text : List Char} : Spells depth (.items vs) text →
      Spells (depth + 1) (.value (.array vs)) ('[' :: (text ++ [']']))
  | emptyObject {depth : Nat} {gap : List Char} : IsGap gap →
      Spells (depth + 1) (.value (.object [])) ('{' :: (gap ++ ['}']))
  | object {depth : Nat} {ms : Members Json} {text : List Char} : ms.names.Nodup →
      Spells depth (.members ms) text →
      Spells (depth + 1) (.value (.object ms)) ('{' :: (text ++ ['}']))
  | lastItem {depth : Nat} {v : Json} {before text after : List Char} : IsGap before →
      Spells depth (.value v) text → IsGap after →
      Spells depth (.items [v]) (before ++ (text ++ after))
  | item {depth : Nat} {v : Json} {vs : List Json} {before text after rest : List Char} :
      IsGap before → Spells depth (.value v) text → IsGap after → Spells depth (.items vs) rest →
      Spells depth (.items (v :: vs)) (before ++ (text ++ (after ++ ',' :: rest)))
  | lastMember {depth : Nat} {name : String} {v : Json}
      {before nameText inner gap text after : List Char} : IsGap before →
      StringText name.toList nameText → IsGap inner → IsGap gap → Spells depth (.value v) text →
      IsGap after →
      Spells depth (.members [(name, v)])
        (before ++ '"' :: (nameText ++ '"' :: (inner ++ ':' :: (gap ++ (text ++ after)))))
  | member {depth : Nat} {name : String} {v : Json} {ms : Members Json}
      {before nameText inner gap text after rest : List Char} : IsGap before →
      StringText name.toList nameText → IsGap inner → IsGap gap → Spells depth (.value v) text →
      IsGap after → Spells depth (.members ms) rest →
      Spells depth (.members ((name, v) :: ms))
        (before ++ '"' :: (nameText ++ '"' ::
          (inner ++ ':' :: (gap ++ (text ++ (after ++ ',' :: rest))))))

/-- What a text of a part starts with behind its blanks: not with a closing bracket, and the members
of an object start with the name of the first one. -/
def Part.Starts : Part → Char → Prop
  | value _, c | items _, c => c ≠ ']'
  | members _, c => c = '"'

/-- A text of a part has something behind its blanks, and a value has no blanks in front. -/
theorem Spells.start {depth : Nat} {part : Part} {text : List Char} (h : Spells depth part text) :
    ∃ gap c tail, text = gap ++ c :: tail ∧ IsGap gap ∧ isSpace c = false ∧ part.Starts c ∧
      ∀ v, part = .value v → gap = [] := by
  have hnone : IsGap [] := fun _ hc => nomatch hc
  have hshort : ∀ {v : Json} {c : Char} (tail : List Char), isSpace c = false → c ≠ ']' →
      ∃ gap d rest, c :: tail = gap ++ d :: rest ∧ IsGap gap ∧ isSpace d = false ∧
        (Part.value v).Starts d ∧ ∀ w, Part.value v = .value w → gap = [] :=
    fun tail hspace hc => ⟨[], _, tail, rfl, hnone, hspace, hc, fun _ _ => rfl⟩
  induction h with
  | nullWord | trueWord | falseWord | string | emptyArray | array | emptyObject | object =>
    exact hshort _ (by decide) (by decide)
  | number ht _ _ =>
    obtain ⟨c, tail, heq, hc⟩ := NumberText.chars_head ht.base
    rw [heq, List.cons_append]
    obtain ⟨-, -, -, hbracket, hspace⟩ := isScalarStart_ne hc
    exact hshort _ hspace hbracket
  | lastItem hbefore _ _ ih | item hbefore _ _ _ ih _ =>
    obtain ⟨gap, c, tail, rfl, -, hspace, hc, hgap⟩ := ih
    rw [hgap _ rfl]
    exact ⟨_, c, _, rfl, hbefore, hspace, hc, nofun⟩
  | lastMember hbefore | member hbefore =>
    exact ⟨_, '"', _, rfl, hbefore, by decide, rfl, nofun⟩

/-- The blanks in front of a part are skipped, and what is left is no closing bracket. -/
theorem Spells.skips {depth : Nat} {part : Part} {text : List Char}
    (h : Spells depth part text) (rest : List Char) :
    ∃ c tail, skipSpace (text ++ rest) = c :: tail ∧ part.Starts c := by
  obtain ⟨gap, c, tail, rfl, hgap, hspace, hc, -⟩ := h.start
  refine ⟨c, tail ++ rest, ?_, hc⟩
  rw [List.append_assoc, hgap.skipSpace, List.cons_append, skipSpace_cons hspace]

/-- A value has no blanks in front. -/
theorem Spells.skips_value {depth : Nat} {v : Json} {text : List Char}
    (h : Spells depth (.value v) text) (rest : List Char) :
    skipSpace (text ++ rest) = text ++ rest := by
  obtain ⟨gap, c, tail, rfl, -, hspace, -, hgap⟩ := h.start
  rw [hgap v rfl, List.nil_append, List.cons_append, skipSpace_cons hspace]

/-! Reading. -/

/-- An array whose items start behind blanks. -/
theorem readValue_items {fuel depth : Nat} {s tail : List Char} {c : Char}
    (hskip : skipSpace s = c :: tail) (hc : c ≠ ']') :
    readValue (fuel + 1) (depth + 1) ('[' :: s) =
      (readItems fuel depth (skipSpace s)).map fun found => (array found.1, found.2) := by
  rw [readValue, if_neg (Nat.succ_ne_zero depth), hskip]
  split
  · rename_i heq
    exact absurd (List.cons.inj heq).1 hc
  · rw [Nat.add_sub_cancel]
    cases readItems fuel depth (c :: tail) <;> rfl

/-- An object whose members start behind blanks. -/
theorem readValue_members {fuel depth : Nat} {s tail : List Char}
    (hskip : skipSpace s = '"' :: tail) :
    readValue (fuel + 1) (depth + 1) ('{' :: s) =
      (readMembers fuel depth [] (skipSpace s)).map fun found => (object found.1, found.2) := by
  rw [readValue, if_neg (Nat.succ_ne_zero depth), hskip]
  change (readMembers fuel depth [] ('"' :: tail) >>= _) = _
  cases readMembers fuel depth [] ('"' :: tail) <;> rfl

theorem readItems_close {fuel depth : Nat} {s rest after : List Char} {v : Json}
    (hread : readValue fuel depth s = .ok (v, rest)) (hrest : skipSpace rest = ']' :: after) :
    readItems (fuel + 1) depth s = .ok ([v], after) := by
  rw [readItems, hread]
  dsimp only [bind, Except.bind]
  rw [hrest]
  rfl

theorem readItems_comma {fuel depth : Nat} {s rest after : List Char} {v : Json}
    (hread : readValue fuel depth s = .ok (v, rest)) (hrest : skipSpace rest = ',' :: after) :
    readItems (fuel + 1) depth s =
      (readItems fuel depth (skipSpace after)).map fun found => (v :: found.1, found.2) := by
  rw [readItems, hread]
  dsimp only [bind, Except.bind]
  rw [hrest]
  change (readItems fuel depth (skipSpace after)).bind _ = _
  cases readItems fuel depth (skipSpace after) <;> rfl

/-- A member up to its value. -/
theorem readMembers_member {fuel depth : Nat} {found : Members Json} {name : String}
    {nameText inner gap text rest : List Char} {v : Json} (hname : StringText name.toList nameText)
    (hinner : IsGap inner) (hgap : IsGap gap) (hstart : skipSpace (text ++ rest) = text ++ rest)
    (hread : readValue fuel depth (text ++ rest) = .ok (v, rest)) :
    readMembers (fuel + 1) depth found
        ('"' :: (nameText ++ '"' :: (inner ++ ':' :: (gap ++ (text ++ rest))))) =
      match skipSpace rest with
      | '}' :: after => .ok (found.set name v, after)
      | ',' :: after => readMembers fuel depth (found.set name v) (skipSpace after)
      | _ => .error .malformed := by
  have hcolon : skipSpace (inner ++ ':' :: (gap ++ (text ++ rest))) =
      ':' :: (gap ++ (text ++ rest)) := by
    rw [hinner.skipSpace, skipSpace_cons (by decide)]
  rw [readMembers, hname.read]
  simp only [hcolon, hgap.skipSpace, hstart, hread, memberOf_codesOf]
  rfl

def Part.IsRead (depth : Nat) : Part → List Char → Prop
  | value v, text => ∀ fuel rest, text.length ≤ fuel → EndsToken rest →
      readValue fuel depth (text ++ rest) = .ok (v, rest)
  | items vs, text => ∀ fuel rest, text.length + 1 ≤ fuel →
      readItems fuel depth (skipSpace (text ++ ']' :: rest)) = .ok (vs, rest)
  | members ms, text => ∀ fuel found rest, text.length + 1 ≤ fuel →
      (Members.names (found ++ ms)).Nodup →
      readMembers fuel depth found (skipSpace (text ++ '}' :: rest)) = .ok (found ++ ms, rest)

/-- A member with a new name is put behind those that were found. -/
theorem set_of_nodup {found ms : Members Json} {name : String} (v : Json)
    (h : (Members.names (found ++ (name, v) :: ms)).Nodup) :
    found.set name v = found ++ [(name, v)] := by
  refine Members.set_of_not_mem ?_ v
  rw [Members.names, List.map_append, List.map_cons] at h
  exact fun hmem => (List.nodup_append.1 h).2.2 name hmem name (List.mem_cons_self ..) rfl

/-- Fuel for a text that is not empty is no nought. -/
theorem exists_fuel {n fuel : Nat} (h : n + 1 ≤ fuel) : ∃ k, fuel = k + 1 ∧ n ≤ k :=
  ⟨fuel - 1, by omega, by omega⟩

theorem Spells.isRead {depth : Nat} {part : Part} {text : List Char}
    (h : Spells depth part text) : part.IsRead depth text := by
  induction h with
  | nullWord | trueWord | falseWord =>
    intro fuel rest hfuel _
    obtain ⟨fuel, rfl, -⟩ := exists_fuel hfuel
    exact readValue_scalar fuel _ _ (by decide)
  | @number depth t v power ht hvalue hpower =>
    intro fuel rest hfuel hrest
    obtain ⟨c, tail, heq, hc⟩ := NumberText.chars_head ht.base
    have hread := NumberText.readScalar_powerText ht hpower hrest
    rw [List.append_assoc]
    rw [heq, List.cons_append] at hfuel hread ⊢
    obtain ⟨fuel, rfl, -⟩ := exists_fuel hfuel
    rw [readValue_scalar fuel depth _ hc, hread, hvalue]
    rfl
  | @string depth s text hs =>
    intro fuel rest hfuel _
    obtain ⟨fuel, rfl, -⟩ := exists_fuel hfuel
    rw [List.cons_append, List.append_assoc, readValue, List.singleton_append, hs.read]
    simp only [ofCodes_codesOf, String.ofList_toList]
  | @emptyArray depth gap hgap =>
    intro fuel rest hfuel _
    obtain ⟨fuel, rfl, -⟩ := exists_fuel hfuel
    rw [List.cons_append, List.append_assoc, readValue, if_neg (Nat.succ_ne_zero depth),
      hgap.skipSpace]
    rfl
  | @array depth vs text hitems ih =>
    intro fuel rest hfuel _
    obtain ⟨fuel, rfl, hfuel⟩ := exists_fuel hfuel
    obtain ⟨c, tail, hskip, hc⟩ := hitems.skips (']' :: rest)
    rw [List.cons_append, List.append_assoc, List.singleton_append, readValue_items hskip hc,
      ih fuel rest (by simpa using hfuel)]
    rfl
  | @emptyObject depth gap hgap =>
    intro fuel rest hfuel _
    obtain ⟨fuel, rfl, -⟩ := exists_fuel hfuel
    rw [List.cons_append, List.append_assoc, readValue, if_neg (Nat.succ_ne_zero depth),
      hgap.skipSpace]
    rfl
  | @object depth ms text hnames hmembers ih =>
    intro fuel rest hfuel _
    obtain ⟨fuel, rfl, hfuel⟩ := exists_fuel hfuel
    obtain ⟨c, tail, hskip, rfl⟩ := hmembers.skips ('}' :: rest)
    rw [List.cons_append, List.append_assoc, List.singleton_append, readValue_members hskip,
      ih fuel [] rest (by simpa using hfuel) hnames]
    rfl
  | @lastItem depth v before text after hbefore hv hafter ih =>
    intro fuel rest hfuel
    obtain ⟨fuel, rfl, hfuel⟩ := exists_fuel hfuel
    simp only [List.length_append] at hfuel
    simp only [List.append_assoc]
    have hclose : skipSpace (after ++ ']' :: rest) = ']' :: rest := by
      rw [hafter.skipSpace, skipSpace_cons (by decide)]
    rw [hbefore.skipSpace, hv.skips_value]
    exact readItems_close (ih fuel _ (by omega) (hafter.endsToken (by decide) rest)) hclose
  | @item depth v vs before text after more hbefore hv hafter hmore ih ihmore =>
    intro fuel rest hfuel
    obtain ⟨fuel, rfl, hfuel⟩ := exists_fuel hfuel
    simp only [List.length_append, List.length_cons] at hfuel
    simp only [List.append_assoc, List.cons_append]
    have hcomma : skipSpace (after ++ ',' :: (more ++ ']' :: rest)) =
        ',' :: (more ++ ']' :: rest) := by
      rw [hafter.skipSpace, skipSpace_cons (by decide)]
    rw [hbefore.skipSpace, hv.skips_value,
      readItems_comma (ih fuel _ (by omega) (hafter.endsToken (by decide) _)) hcomma,
      ihmore fuel rest (by omega)]
    rfl
  | @lastMember depth name v before nameText inner gap text after hbefore hname hinner hgap hv
      hafter ih =>
    intro fuel found rest hfuel hnames
    obtain ⟨fuel, rfl, hfuel⟩ := exists_fuel hfuel
    simp only [List.length_append, List.length_cons] at hfuel
    simp only [List.append_assoc, List.cons_append]
    rw [hbefore.skipSpace, skipSpace_cons (by decide),
      readMembers_member hname hinner hgap (hv.skips_value _)
        (ih fuel _ (by omega) (hafter.endsToken (by decide) rest)),
      hafter.skipSpace, set_of_nodup v hnames]
    rfl
  | @member depth name v ms before nameText inner gap text after more hbefore hname hinner hgap hv
      hafter hmore ih ihmore =>
    intro fuel found rest hfuel hnames
    obtain ⟨fuel, rfl, hfuel⟩ := exists_fuel hfuel
    simp only [List.length_append, List.length_cons] at hfuel
    simp only [List.append_assoc, List.cons_append]
    rw [hbefore.skipSpace, skipSpace_cons (by decide),
      readMembers_member hname hinner hgap (hv.skips_value _)
        (ih fuel _ (by omega) (hafter.endsToken (by decide) _)),
      hafter.skipSpace, set_of_nodup v hnames]
    change readMembers fuel depth (found ++ [(name, v)]) (skipSpace (more ++ '}' :: rest)) = _
    have hassoc : found ++ [(name, v)] ++ ms = found ++ (name, v) :: ms := by
      rw [List.append_assoc]
      rfl
    rw [ihmore fuel _ rest (by omega) (by rwa [hassoc]), hassoc]

/-- Every text of a value is read as the value. -/
theorem readChars_of_spells {v : Json} {text : List Char}
    (h : Spells depthLimit (.value v) text) : readChars text = .ok v := by
  have hskip := h.skips_value []
  have hread := h.isRead (readFuel text) [] (by rw [readFuel]; omega) endsToken_nil
  rw [List.append_nil] at hskip hread
  rw [readChars, hskip, hread]
  rfl

/-! Texts on one line. -/

def NoControl (text : List Char) : Prop := ∀ c ∈ text, c = '\t' ∨ 0x20 ≤ c.toNat

@[simp] theorem noControl_nil : NoControl [] := fun _ h => nomatch h

@[simp] theorem noControl_cons {c : Char} {text : List Char} :
    NoControl (c :: text) ↔ (c = '\t' ∨ 0x20 ≤ c.toNat) ∧ NoControl text :=
  List.forall_mem_cons

@[simp] theorem noControl_append {text rest : List Char} :
    NoControl (text ++ rest) ↔ NoControl text ∧ NoControl rest :=
  List.forall_mem_append

theorem IsGap.noControl {gap : List Char} (h : IsGap gap) : NoControl gap := by
  intro c hc
  obtain rfl | rfl := h c hc
  · exact .inr (by decide)
  · exact .inl rfl

theorem noControl_of_digits {digits : List Char} (h : ∀ c ∈ digits, isAsciiDigit c = true) :
    NoControl digits := by
  intro c hc
  have hdigit := (isAsciiDigit_iff c).1 (h c hc)
  exact .inr (by omega)

theorem toNat_of_hexValue? {c : Char} {n : Nat} (h : hexValue? c = some n) : 0x20 ≤ c.toNat := by
  have hle : ∀ d : Char, 0x20 ≤ d.toNat → d ≤ c → 0x20 ≤ c.toNat :=
    fun _ hd hdc => Nat.le_trans hd hdc
  simp only [hexValue?, Bool.and_eq_true, decide_eq_true_eq] at h
  split at h
  · exact hle '0' (by decide) (by simp_all)
  split at h
  · exact hle 'a' (by decide) (by simp_all)
  split at h
  · exact hle 'A' (by decide) (by simp_all)
  · cases h

theorem noControl_of_hexNumber? {digits : List Char} {n : Nat}
    (h : hexNumber? digits = some n) : NoControl digits := by
  rw [hexNumber?] at h
  generalize 0 = total at h
  induction digits generalizing total with
  | nil => exact noControl_nil
  | cons c digits ih =>
    rw [List.foldlM_cons, Option.bind_eq_bind, Option.bind_eq_some_iff] at h
    obtain ⟨next, hnext, hrest⟩ := h
    obtain ⟨value, hvalue, -⟩ := Option.map_eq_some_iff.1 hnext
    exact noControl_cons.2 ⟨.inr (toNat_of_hexValue? hvalue), ih next hrest⟩

theorem noControl_of_shortEscape? {letter c : Char} (h : shortEscape? letter = some c) :
    NoControl [letter] := by
  rw [shortEscape?.eq_def] at h
  split at h
  case h_9 => cases h
  all_goals simp

theorem CharText.noControl {c : Char} {text : List Char} (h : CharText c text) :
    NoControl text := by
  cases h with
  | raw hraw =>
    simp only [NeedsEscape, not_or] at hraw
    simp only [noControl_cons, noControl_nil, and_true]
    exact .inr (by omega)
  | short _ hletter => simpa using noControl_of_shortEscape? hletter
  | digits _ hdigits => simpa using noControl_of_hexNumber? hdigits

theorem StringText.noControl {s text : List Char} (h : StringText s text) : NoControl text := by
  induction h with
  | nil => exact noControl_nil
  | cons hc _ ih => exact noControl_append.2 ⟨hc.noControl, ih⟩

theorem NumberText.noControl {t : NumberText} {power : List Char} (ht : t.WellFormed)
    (hpower : PowerText t.power power) : NoControl (t.base.chars ++ power) := by
  have hunsigned : NoControl t.base.unsigned := by
    have hfraction : NoControl (fractionChars t.fraction) := by
      have hall := noControl_of_digits ht.fraction_digits
      generalize t.fraction = fraction at hall
      cases fraction with
      | nil => exact noControl_nil
      | cons c fraction => simpa [fractionChars] using hall
    rw [base_unsigned]
    exact noControl_append.2 ⟨noControl_of_digits ht.whole_digits, hfraction⟩
  have hexponent : NoControl power := by
    have hall := ht.power_digits
    generalize t.power = p at hpower hall
    cases hpower with
    | none => exact noControl_nil
    | signed negative digits hletter =>
      have hdigits := noControl_of_digits (hall _ rfl).2
      obtain rfl | rfl := hletter <;> cases negative <;> simpa using hdigits
    | unsigned digits hletter =>
      have hdigits := noControl_of_digits (hall _ rfl).2
      obtain rfl | rfl := hletter <;> simpa using hdigits
  rw [chars]
  split <;> simp [hunsigned, hexponent]

/-- What stands on one line has no controls but tabs. -/
theorem Spells.noControl {depth : Nat} {part : Part} {text : List Char}
    (h : Spells depth part text) : NoControl text := by
  induction h with
  | nullWord | trueWord | falseWord => simp
  | number ht _ hpower => exact NumberText.noControl ht hpower
  | string hs => simp [hs.noControl]
  | emptyArray hgap | emptyObject hgap => simp [hgap.noControl]
  | array _ ih | object _ _ ih => simp [ih]
  | lastItem hbefore _ hafter ih => simp [hbefore.noControl, ih, hafter.noControl]
  | item hbefore _ hafter _ ih ihmore => simp [hbefore.noControl, ih, hafter.noControl, ihmore]
  | lastMember hbefore hname hinner hgap _ hafter ih =>
    simp [hbefore.noControl, hname.noControl, hinner.noControl, hgap.noControl, ih,
      hafter.noControl]
  | member hbefore hname hinner hgap _ hafter _ ih ihmore =>
    simp [hbefore.noControl, hname.noControl, hinner.noControl, hgap.noControl, ih,
      hafter.noControl, ihmore]

/-! Written texts. -/

theorem charText_escapeChar (c : Char) : CharText c (escapeChar c) := by
  have hshort : ∀ letter : Char, NeedsEscape c → shortEscape? letter = some c →
      CharText c ['\\', letter] := fun _ => CharText.short
  rw [escapeChar]
  split
  · exact hshort '"' (by simp_all [NeedsEscape]) (by simp_all [shortEscape?])
  split
  · exact hshort '\\' (by simp_all [NeedsEscape]) (by simp_all [shortEscape?])
  split
  · exact hshort 'n' (by simp_all [NeedsEscape]) (by simp_all [shortEscape?])
  split
  · exact hshort 'r' (by simp_all [NeedsEscape]) (by simp_all [shortEscape?])
  split
  · exact hshort 't' (by simp_all [NeedsEscape]) (by simp_all [shortEscape?])
  split
  · exact hshort 'f' (by simp_all [NeedsEscape]) (by simp_all [shortEscape?])
  split
  · exact hshort 'b' (by simp_all [NeedsEscape]) (by simp_all [shortEscape?])
  split
  · rename_i hcontrol
    obtain ⟨d₁, d₂, d₃, d₄, hdigits, hcode⟩ := fourDigits?_control hcontrol
    rw [hdigits]
    exact .digits (.inr (.inr hcontrol)) hcode
  · exact .raw (by simp_all [NeedsEscape])

theorem stringText_escaped (s : List Char) : StringText s (s.flatMap escapeChar) := by
  induction s with
  | nil => exact .nil
  | cons c s ih => exact .cons (charText_escapeChar c) ih

theorem isGap_nil : IsGap [] := fun _ h => nomatch h

theorem isGap_space : IsGap [' '] := fun _ h => .inl (List.mem_singleton.1 h)

/-- More blanks may stand in front of items and members. -/
theorem Spells.behindSpace {depth : Nat} {part : Part} {text : List Char}
    (h : Spells depth part text) (hpart : ∀ v, part ≠ .value v) :
    Spells depth part (' ' :: text) := by
  have hgap : ∀ {before : List Char}, IsGap before → IsGap (' ' :: before) :=
    fun hbefore => List.forall_mem_cons.2 ⟨.inl rfl, hbefore⟩
  cases h with
  | lastItem hbefore hv hafter => exact .lastItem (hgap hbefore) hv hafter
  | item hbefore hv hafter hmore => exact .item (hgap hbefore) hv hafter hmore
  | lastMember hbefore hname hinner hspace hv hafter =>
    exact .lastMember (hgap hbefore) hname hinner hspace hv hafter
  | member hbefore hname hinner hspace hv hafter hmore =>
    exact .member (hgap hbefore) hname hinner hspace hv hafter hmore
  | _ => exact absurd rfl (hpart _)

mutual

/-- What is written for a value is one of its texts. -/
theorem spells_writeChars : ∀ (depth : Nat) (v : Json), v.isLossless depth = true →
    Spells depth (.value v) (writeChars v)
  | _, null, _ => .nullWord
  | _, bool true, _ => .trueWord
  | _, bool false, _ => .falseWord
  | depth, int i, h => by
    have hvalue : (NumberText.ofInt i).value = .ok (.int i) := by
      simp only [isLossless, decide_eq_true_eq] at h
      rw [NumberText.ofInt_value, if_neg (by omega)]
    have hnumber : Spells depth _ _ := .number (NumberText.ofInt_wellFormed i) hvalue .none
    rwa [List.append_nil, show (NumberText.ofInt i).base = NumberText.ofInt i from rfl,
      NumberText.ofInt_chars] at hnumber
  | _, string s, _ => .string (stringText_escaped s.toList)
  | depth + 1, array [], _ => .emptyArray isGap_nil
  | depth + 1, array (item :: items), h => .array (spells_writeItems depth item items h)
  | depth + 1, object [], _ => .emptyObject isGap_nil
  | depth + 1, object ((name, value) :: members), h => by
    simp only [isLossless, Bool.and_eq_true, decide_eq_true_eq] at h
    exact .object h.1 (spells_writeMembers depth name value members h.2)
  | 0, array _, h => absurd h Bool.false_ne_true
  | 0, object _, h => absurd h Bool.false_ne_true
  | 0, float _, h | _ + 1, float _, h => absurd h Bool.false_ne_true
  | 0, illFormed _, h | _ + 1, illFormed _, h => absurd h Bool.false_ne_true
  | 0, illNamed _ _, h | _ + 1, illNamed _ _, h => absurd h Bool.false_ne_true

theorem spells_writeItems : ∀ (depth : Nat) (item : Json) (items : List Json),
    areLossless depth (item :: items) = true →
      Spells depth (.items (item :: items)) (writeItems (item :: items))
  | depth, item, [], h => by
    have hitem := spells_writeChars depth item (Bool.and_eq_true_iff.1 h).1
    have hlast := Spells.lastItem isGap_nil hitem isGap_nil
    rwa [List.append_nil] at hlast
  | depth, item, next :: items, h => by
    obtain ⟨hitem, hrest⟩ := Bool.and_eq_true_iff.1 h
    rw [writeItems_more]
    exact .item isGap_nil (spells_writeChars depth item hitem) isGap_nil
      ((spells_writeItems depth next items hrest).behindSpace nofun)

theorem spells_writeMembers : ∀ (depth : Nat) (name : String) (value : Json)
    (members : List (String × Json)), haveLossless depth ((name, value) :: members) = true →
      Spells depth (.members ((name, value) :: members)) (writeMembers ((name, value) :: members))
  | depth, name, value, [], h => by
    have hvalue : value.isLossless depth = true := (Bool.and_eq_true_iff.1 h).1
    have hlast := Spells.lastMember isGap_nil (stringText_escaped name.toList) isGap_nil isGap_space
      (spells_writeChars depth value hvalue) isGap_nil
    rw [writeMembers, writeName_wellFormed name (isWellFormed_of_isLossless depth value hvalue),
      writeString]
    simpa using hlast
  | depth, name, value, (nextName, nextValue) :: members, h => by
    obtain ⟨hvalue, hrest⟩ := Bool.and_eq_true_iff.1 h
    have hmore := Spells.member isGap_nil (stringText_escaped name.toList) isGap_nil isGap_space
      (spells_writeChars depth value hvalue) isGap_nil
      ((spells_writeMembers depth nextName nextValue members hrest).behindSpace nofun)
    have hname := isWellFormed_of_isLossless depth value hvalue
    rw [writeMembers_more, writeName_wellFormed name hname, writeString]
    simpa using hmore

end

end ProjectCheck.Json
