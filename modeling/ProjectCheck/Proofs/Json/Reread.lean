import ProjectCheck.Proofs.Json.Numbers
import ProjectCheck.Proofs.Json.Strings

/-!
What a value becomes when its JSON text is read again. It keeps its shape and all that is no number
with a fraction; it is refused where it is nested too deeply or has a whole number of too many
digits. Members of one name fall together. The reader is shown to do this and to stop behind the
value, by induction on the value.
-/
namespace ProjectCheck.Json

open Text Decimal

def rereadFloat (x : Binary64) : Binary64 :=
  match readScalar (x.write jsonNumberStyle).toList with
  | .ok (.float y, _) => y
  | _ => .undefined

def rereadInt (i : Int) : Except ReadFault Json :=
  if (Nat.toDigits 10 i.natAbs).length > digitLimit then
    .error (.tooManyDigits (Nat.toDigits 10 i.natAbs).length)
  else .ok (.int i)

mutual

def reread : Nat → Json → Except ReadFault Json
  | _, null => .ok null
  | _, bool b => .ok (bool b)
  | _, int i => rereadInt i
  | _, float x => .ok (float (rereadFloat x))
  | _, string s => .ok (string s)
  | _, illFormed codes => .ok (illFormed codes)
  | 0, array _ => .error .tooDeep
  | depth + 1, array items => (rereadItems depth items).map array
  | 0, object _ => .error .tooDeep
  | depth + 1, object members => (rereadMembers depth [] members).map object
  | depth, illNamed _ value => reread depth value

def rereadItems : Nat → List Json → Except ReadFault (List Json)
  | _, [] => .ok []
  | depth, item :: rest => do
    let item ← reread depth item
    return item :: (← rereadItems depth rest)

def rereadMembers : Nat → Members Json → List (String × Json) → Except ReadFault (Members Json)
  | _, found, [] => .ok found
  | depth, found, (name, value) :: rest => do
    let value ← reread depth value
    rereadMembers depth (found.set name value) rest

end

theorem rereadItems_cons (depth : Nat) (item : Json) (items : List Json) :
    rereadItems depth (item :: items) = do
      let item ← reread depth item
      return item :: (← rereadItems depth items) := by
  rw [rereadItems]

theorem readScalar_float (x : Binary64) {rest : List Char} (h : EndsValue rest) :
    readScalar ((x.write jsonNumberStyle).toList ++ rest) = .ok (.float (rereadFloat x), rest) := by
  obtain ⟨y, hy⟩ := readScalar_write x
  have hend : EndsValue [] := fun _ hc => nomatch hc
  have halone := hy [] hend
  rw [List.append_nil] at halone
  rw [hy rest h, rereadFloat, halone]

theorem readScalar_int (i : Int) {rest : List Char} (h : EndsValue rest) :
    readScalar ((toString i).toList ++ rest) = (rereadInt i).map fun value => (value, rest) := by
  rw [← NumberText.ofInt_chars, NumberText.readScalar_append (NumberText.ofInt_wellFormed i) h,
    NumberText.ofInt_value]
  rfl

/-- What starts a word or a number starts nothing else, and is no space. -/
theorem isScalarStart_ne {c : Char} (h : isScalarStart c = true) :
    c ≠ '"' ∧ c ≠ '[' ∧ c ≠ '{' ∧ c ≠ ']' ∧ isSpace c = false := by
  refine ⟨?_, ?_, ?_, ?_, ?_⟩
  · rintro rfl
    exact absurd h (by decide)
  · rintro rfl
    exact absurd h (by decide)
  · rintro rfl
    exact absurd h (by decide)
  · rintro rfl
    exact absurd h (by decide)
  · cases hc : isSpace c with
    | false => rfl
    | true =>
      simp only [isSpace, Bool.or_eq_true, decide_eq_true_eq] at hc
      rcases hc with ((rfl | rfl) | rfl) | rfl <;> exact absurd h (by decide)

theorem readValue_scalar (fuel depth : Nat) {c : Char} (tail : List Char)
    (h : isScalarStart c = true) :
    readValue (fuel + 1) depth (c :: tail) = readScalar (c :: tail) := by
  obtain ⟨hstring, harray, hobject, -, -⟩ := isScalarStart_ne h
  rw [readValue]
  · exact fun rest heq => hstring (List.cons.inj heq).1
  · exact fun rest heq => harray (List.cons.inj heq).1
  · exact fun rest heq => hobject (List.cons.inj heq).1

/-- The text of a value starts with no space and with no closing bracket. -/
theorem writeChars_head : ∀ v : Json,
    ∃ c tail, writeChars v = c :: tail ∧ isSpace c = false ∧ c ≠ ']'
  | null => ⟨'n', _, rfl, by decide, by decide⟩
  | bool true => ⟨'t', _, rfl, by decide, by decide⟩
  | bool false => ⟨'f', _, rfl, by decide, by decide⟩
  | int i => by
    obtain ⟨c, tail, hs, hc⟩ := write_int_head i
    exact ⟨c, tail, hs, (isScalarStart_ne hc).2.2.2.2, (isScalarStart_ne hc).2.2.2.1⟩
  | float x => by
    obtain ⟨c, tail, hs, hc⟩ := write_float_head x
    exact ⟨c, tail, hs, (isScalarStart_ne hc).2.2.2.2, (isScalarStart_ne hc).2.2.2.1⟩
  | string _ => ⟨'"', _, rfl, by decide, by decide⟩
  | illFormed _ => ⟨'"', _, rfl, by decide, by decide⟩
  | array _ => ⟨'[', _, rfl, by decide, by decide⟩
  | object _ => ⟨'{', _, rfl, by decide, by decide⟩
  | illNamed _ value => writeChars_head value

theorem writeItems_more (item next : Json) (items : List Json) :
    writeItems (item :: next :: items) =
      writeChars item ++ ',' :: ' ' :: writeItems (next :: items) := by
  rw [writeItems]
  exact fun h => nomatch h

theorem writeMembers_more (name : String) (value : Json) (next : String × Json)
    (members : List (String × Json)) :
    writeMembers ((name, value) :: next :: members) =
      writeName name value ++ ':' :: ' ' :: writeChars value ++
        ',' :: ' ' :: writeMembers (next :: members) := by
  rw [writeMembers]
  exact fun h => nomatch h

theorem writeItems_head (item : Json) (items : List Json) :
    ∃ c tail, writeItems (item :: items) = c :: tail ∧ isSpace c = false ∧ c ≠ ']' := by
  obtain ⟨c, tail, hs, hc⟩ := writeChars_head item
  cases items with
  | nil => exact ⟨c, tail, hs, hc⟩
  | cons next rest =>
    refine ⟨c, tail ++ ',' :: ' ' :: writeItems (next :: rest), ?_, hc⟩
    rw [writeItems_more, hs, List.cons_append]

theorem writeName_wellFormed (name : String) {value : Json} (h : value.isWellFormed = true) :
    writeName name value = writeString name := by
  cases value with
  | illNamed codes value => exact absurd h Bool.false_ne_true
  | _ => rfl

theorem writeMembers_head (name : String) {value : Json} (hvalue : value.isWellFormed = true)
    (members : List (String × Json)) :
    ∃ tail, writeMembers ((name, value) :: members) = '"' :: tail := by
  have hname := writeName_wellFormed name hvalue
  cases members with
  | nil => exact ⟨_, by rw [writeMembers, hname, writeString, List.cons_append]⟩
  | cons next rest =>
    rw [writeMembers_more, hname, writeString, List.cons_append, List.cons_append]
    exact ⟨_, rfl⟩

theorem skipSpace_cons {c : Char} (h : isSpace c = false) (s : List Char) :
    skipSpace (c :: s) = c :: s :=
  dropWhile_stops (Stops.cons h)

theorem skipSpace_space (s : List Char) : skipSpace (' ' :: s) = skipSpace s := rfl

theorem endsValue_cons {c : Char} {rest : List Char} (h : c = ',' ∨ c = ']' ∨ c = '}') :
    EndsValue (c :: rest) := by
  intro d hd
  rw [← Option.some.inj hd]
  exact h

/-- An array that is not empty is read by its items. -/
theorem readValue_array (fuel depth : Nat) {c : Char} (tail : List Char)
    (hspace : isSpace c = false) (hbracket : c ≠ ']') :
    readValue (fuel + 1) (depth + 1) ('[' :: c :: tail) =
      (readItems fuel depth (c :: tail)).map fun found => (array found.1, found.2) := by
  rw [readValue, if_neg (Nat.succ_ne_zero depth), skipSpace_cons hspace]
  split
  · rename_i heq
    exact absurd (List.cons.inj heq).1 hbracket
  · rw [Nat.add_sub_cancel]
    cases readItems fuel depth (c :: tail) <;> rfl

/-- An object that is not empty is read by its members. -/
theorem readValue_object (fuel depth : Nat) (tail : List Char) :
    readValue (fuel + 1) (depth + 1) ('{' :: '"' :: tail) =
      (readMembers fuel depth [] ('"' :: tail)).map fun found => (object found.1, found.2) := by
  rw [readValue, if_neg (Nat.succ_ne_zero depth)]
  change (readMembers fuel depth [] ('"' :: tail) >>= _) = _
  cases readMembers fuel depth [] ('"' :: tail) <;> rfl

variable {fuel depth : Nat} {s tail : List Char} {outcome : Except ReadFault Json}

/-- After the last item the closing bracket ends the array. -/
theorem readItems_last (h : readValue fuel depth s = outcome.map fun item => (item, ']' :: tail)) :
    readItems (fuel + 1) depth s = outcome.map fun item => ([item], tail) := by
  rw [readItems, h]
  cases outcome <;> rfl

/-- After any other item a comma and a space lead to the next one. -/
theorem readItems_more
    (h : readValue fuel depth s = outcome.map fun item => (item, ',' :: ' ' :: tail))
    (htail : skipSpace tail = tail) :
    readItems (fuel + 1) depth s = outcome.bind fun item =>
      (readItems fuel depth tail).map fun found => (item :: found.1, found.2) := by
  rw [readItems, h]
  cases outcome with
  | error fault => rfl
  | ok item =>
    change (readItems fuel depth (skipSpace tail) >>= _) = _
    rw [htail]
    cases readItems fuel depth tail <;> rfl

/-- The name of a member and the mark after it are read before its value. -/
theorem readMembers_name (fuel depth : Nat) (found : Members Json) (name : String) {c : Char}
    (tail : List Char) (hspace : isSpace c = false) :
    readMembers (fuel + 1) depth found (writeString name ++ ':' :: ' ' :: c :: tail) =
      (readValue fuel depth (c :: tail)).bind fun read =>
        match skipSpace read.2 with
        | '}' :: after => .ok (found.set name read.1, after)
        | ',' :: after => readMembers fuel depth (found.set name read.1) (skipSpace after)
        | _ => .error .malformed := by
  have htext : writeString name ++ ':' :: ' ' :: c :: tail =
      '"' :: (name.toList.flatMap escapeChar ++ '"' :: ':' :: ' ' :: c :: tail) := by
    rw [writeString, List.cons_append, List.append_assoc]
    rfl
  rw [htext, readMembers, readString_escaped]
  change (readValue fuel depth (skipSpace (c :: tail)) >>= _) = _
  rw [skipSpace_cons hspace]
  cases readValue fuel depth (c :: tail) with
  | error fault => rfl
  | ok read =>
    simp only [memberOf_codesOf]
    rfl

mutual

/-- The reader gives the reread value and stops behind its text. -/
theorem readValue_write : ∀ (v : Json) (fuel depth : Nat) (rest : List Char),
    v.isWellFormed = true → (writeChars v).length ≤ fuel → EndsValue rest →
      readValue fuel depth (writeChars v ++ rest) = (reread depth v).map fun w => (w, rest)
  | v, 0, depth, rest, _, hfuel, _ => by
    obtain ⟨c, tail, hs, -, -⟩ := writeChars_head v
    rw [hs] at hfuel
    exact absurd hfuel (Nat.not_succ_le_zero _)
  | null, fuel + 1, depth, rest, _, _, _ => readValue_scalar fuel depth _ (by decide)
  | bool true, fuel + 1, depth, rest, _, _, _ => readValue_scalar fuel depth _ (by decide)
  | bool false, fuel + 1, depth, rest, _, _, _ => readValue_scalar fuel depth _ (by decide)
  | int i, fuel + 1, depth, rest, _, _, hrest => by
    have hread := readScalar_int i hrest
    obtain ⟨c, tail, hs, hc⟩ := write_int_head i
    rw [writeChars, reread]
    rw [hs, List.cons_append] at hread ⊢
    rw [readValue_scalar fuel depth _ hc, hread]
  | float x, fuel + 1, depth, rest, _, _, hrest => by
    have hread := readScalar_float x hrest
    obtain ⟨c, tail, hs, hc⟩ := write_float_head x
    rw [writeChars, reread]
    rw [hs, List.cons_append] at hread ⊢
    rw [readValue_scalar fuel depth _ hc, hread]
    rfl
  | string s, fuel + 1, depth, rest, _, _, _ => by
    have hread := readString_escaped s.toList rest
    have htext : writeChars (string s) ++ rest =
        '"' :: (s.toList.flatMap escapeChar ++ '"' :: rest) := by
      rw [writeChars, writeString, List.cons_append, List.append_assoc]
      rfl
    rw [htext, readValue, hread]
    simp only [ofCodes_codesOf, String.ofList_toList, reread]
    rfl
  | array [], fuel + 1, 0, rest, _, _, _ => rfl
  | array [], fuel + 1, depth + 1, rest, _, _, _ => rfl
  | array (item :: items), fuel + 1, 0, rest, _, _, _ => rfl
  | array (item :: items), fuel + 1, depth + 1, rest, hv, hfuel, _ => by
    obtain ⟨c, tail, hs, hspace, hbracket⟩ := writeItems_head item items
    have hlength : (writeItems (item :: items)).length + 1 ≤ fuel := by
      simp only [writeChars, List.length_cons, List.length_append, List.length_nil] at hfuel
      omega
    have htext : writeChars (array (item :: items)) ++ rest =
        '[' :: (writeItems (item :: items) ++ ']' :: rest) := by
      rw [writeChars, List.cons_append, List.append_assoc]
      rfl
    have hitems := readItems_write item items fuel depth rest hv hlength
    rw [htext, reread]
    rw [hs, List.cons_append] at hitems ⊢
    rw [readValue_array fuel depth _ hspace hbracket, hitems]
    cases rereadItems depth (item :: items) <;> rfl
  | object [], fuel + 1, 0, rest, _, _, _ => rfl
  | object [], fuel + 1, depth + 1, rest, _, _, _ => rfl
  | object (_ :: _), fuel + 1, 0, rest, _, _, _ => rfl
  | object ((name, value) :: members), fuel + 1, depth + 1, rest, hv, hfuel, _ => by
    have hvalue : value.isWellFormed = true := (Bool.and_eq_true_iff.1 hv).1
    obtain ⟨tail, hs⟩ := writeMembers_head name hvalue members
    have hlength : (writeMembers ((name, value) :: members)).length + 1 ≤ fuel := by
      simp only [writeChars, List.length_cons, List.length_append, List.length_nil] at hfuel
      omega
    have htext : writeChars (object ((name, value) :: members)) ++ rest =
        '{' :: (writeMembers ((name, value) :: members) ++ '}' :: rest) := by
      rw [writeChars, List.cons_append, List.append_assoc]
      rfl
    have hmembers := readMembers_write name value members fuel depth [] rest hv hlength
    rw [htext, reread]
    rw [hs, List.cons_append] at hmembers ⊢
    rw [readValue_object fuel depth, hmembers]
    cases rereadMembers depth [] ((name, value) :: members) <;> rfl
  | illFormed _, fuel + 1, _, _, hv, _, _ => absurd hv Bool.false_ne_true
  | illNamed _ _, fuel + 1, _, _, hv, _, _ => absurd hv Bool.false_ne_true

theorem readItems_write : ∀ (item : Json) (items : List Json) (fuel depth : Nat)
    (rest : List Char), areWellFormed (item :: items) = true →
      (writeItems (item :: items)).length + 1 ≤ fuel →
      readItems fuel depth (writeItems (item :: items) ++ ']' :: rest) =
        (rereadItems depth (item :: items)).map fun found => (found, rest)
  | _, _, 0, _, _, _, hfuel => absurd hfuel (Nat.not_succ_le_zero _)
  | item, [], fuel + 1, depth, rest, hitems, hfuel => by
    have hitem : item.isWellFormed = true := (Bool.and_eq_true_iff.1 hitems).1
    have hread := readValue_write item fuel depth (']' :: rest) hitem (by
      simp only [writeItems] at hfuel
      omega) (endsValue_cons (by decide))
    rw [writeItems, readItems_last hread, rereadItems]
    cases reread depth item <;> rfl
  | item, next :: items, fuel + 1, depth, rest, hitems, hfuel => by
    have hitem : item.isWellFormed = true := (Bool.and_eq_true_iff.1 hitems).1
    have hnext : areWellFormed (next :: items) = true := (Bool.and_eq_true_iff.1 hitems).2
    rw [writeItems_more] at hfuel ⊢
    simp only [List.length_append, List.length_cons] at hfuel
    have hread := readValue_write item fuel depth
      (',' :: ' ' :: (writeItems (next :: items) ++ ']' :: rest)) hitem (by omega)
      (endsValue_cons (by decide))
    have hrest := readItems_write next items fuel depth rest hnext (by omega)
    obtain ⟨c, tail, hs, hspace, -⟩ := writeItems_head next items
    have hskip : skipSpace (writeItems (next :: items) ++ ']' :: rest) =
        writeItems (next :: items) ++ ']' :: rest := by
      rw [hs, List.cons_append, skipSpace_cons hspace]
    rw [List.append_assoc, List.cons_append, List.cons_append, readItems_more hread hskip, hrest,
      rereadItems_cons depth item (next :: items)]
    cases reread depth item with
    | error fault => rfl
    | ok item => cases rereadItems depth (next :: items) <;> rfl

theorem readMembers_write : ∀ (name : String) (value : Json) (members : List (String × Json))
    (fuel depth : Nat) (found : Members Json) (rest : List Char),
    haveWellFormed ((name, value) :: members) = true →
      (writeMembers ((name, value) :: members)).length + 1 ≤ fuel →
      readMembers fuel depth found (writeMembers ((name, value) :: members) ++ '}' :: rest) =
        (rereadMembers depth found ((name, value) :: members)).map fun found => (found, rest)
  | _, _, _, 0, _, _, _, _, hfuel => absurd hfuel (Nat.not_succ_le_zero _)
  | name, value, [], fuel + 1, depth, found, rest, hmembers, hfuel => by
    have hvalue : value.isWellFormed = true := (Bool.and_eq_true_iff.1 hmembers).1
    obtain ⟨c, tail, hs, hspace, -⟩ := writeChars_head value
    have hread := readValue_write value fuel depth ('}' :: rest) hvalue (by
      simp only [writeMembers, List.length_append, List.length_cons] at hfuel
      omega) (endsValue_cons (by decide))
    rw [writeMembers, writeName_wellFormed name hvalue, List.append_assoc, List.cons_append,
      List.cons_append, rereadMembers]
    rw [hs, List.cons_append] at hread ⊢
    rw [readMembers_name fuel depth found name _ hspace, hread]
    cases reread depth value <;> rfl
  | name, value, (next, nextValue) :: members, fuel + 1, depth, found, rest, hmembers, hfuel => by
    have hvalue : value.isWellFormed = true := (Bool.and_eq_true_iff.1 hmembers).1
    have hnext : haveWellFormed ((next, nextValue) :: members) = true :=
      (Bool.and_eq_true_iff.1 hmembers).2
    rw [writeMembers_more] at hfuel ⊢
    simp only [List.length_append, List.length_cons] at hfuel
    obtain ⟨c, tail, hs, hspace, -⟩ := writeChars_head value
    have hread := readValue_write value fuel depth
      (',' :: ' ' :: (writeMembers ((next, nextValue) :: members) ++ '}' :: rest)) hvalue
      (by omega) (endsValue_cons (by decide))
    obtain ⟨nextTail, hnextText⟩ :=
      writeMembers_head next (Bool.and_eq_true_iff.1 hnext).1 members
    have hskip : skipSpace (' ' :: (writeMembers ((next, nextValue) :: members) ++ '}' :: rest)) =
        writeMembers ((next, nextValue) :: members) ++ '}' :: rest := by
      rw [hnextText, List.cons_append, skipSpace_space, skipSpace_cons (by decide)]
    have htext : writeName name value ++ ':' :: ' ' :: writeChars value ++
        ',' :: ' ' :: writeMembers ((next, nextValue) :: members) ++ '}' :: rest =
          writeString name ++ ':' :: ' ' :: (writeChars value ++
            ',' :: ' ' :: (writeMembers ((next, nextValue) :: members) ++ '}' :: rest)) := by
      simp only [writeName_wellFormed name hvalue, List.append_assoc, List.cons_append]
    rw [htext, rereadMembers]
    rw [hs, List.cons_append] at hread ⊢
    rw [readMembers_name fuel depth found name _ hspace, hread]
    cases reread depth value with
    | error fault => rfl
    | ok value =>
      change readMembers fuel depth (found.set name value) (skipSpace (' ' :: _)) = _
      rw [hskip]
      exact readMembers_write next nextValue members fuel depth (found.set name value) rest hnext
        (by omega)

end

/-- Reading a written text gives the reread value. -/
theorem readChars_writeChars {v : Json} (hv : v.isWellFormed = true) :
    readChars (writeChars v) = reread depthLimit v := by
  obtain ⟨c, tail, hs, hspace, -⟩ := writeChars_head v
  have hskip : skipSpace (writeChars v) = writeChars v := by rw [hs, skipSpace_cons hspace]
  have hfuel : (writeChars v).length ≤ readFuel (writeChars v) := by
    rw [readFuel]
    omega
  have hread := readValue_write v _ depthLimit [] hv hfuel fun _ h => nomatch h
  rw [List.append_nil] at hread
  rw [readChars, hskip, hread]
  cases reread depthLimit v <;> rfl

end ProjectCheck.Json
