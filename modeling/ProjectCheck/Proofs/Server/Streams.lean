import ProjectCheck.Proofs.Server.Frames

/-!
Streams of any octets. Whatever stands in a stream, it is blocks one after the other, each a header,
its blank line and as much content as the header declares, and a rest from which nothing can be
taken. What was taken stays taken when more comes, so that it does not matter where a stream is cut,
and what declares no length is passed over up to the next blank line.
-/
namespace ProjectCheck.Frame

open Text

variable {octets header content body rest stream digits : Bytes}

/-! Declarations of lengths. -/

/-- Octets start with a declaration: the name in any letter case, blanks if any, and as many digits
as there are. -/
def StartsDeclaration (octets digits : Bytes) : Prop :=
  ∃ name blanks after, octets = name ++ (blanks ++ (digits ++ after)) ∧
    name.map lowerOctet = lengthName ∧ (∀ b ∈ blanks, isBlankOctet b = true) ∧
    digits ≠ [] ∧ (∀ b ∈ digits, isDigitOctet b = true) ∧ Stops isDigitOctet after

def HasNoDeclaration (octets : Bytes) : Prop :=
  ∀ before after, octets = before ++ after → ∀ digits, ¬ StartsDeclaration after digits

inductive FirstDeclaration : Bytes → Bytes → Prop
  | here {header digits : Bytes} (h : StartsDeclaration header digits) :
      FirstDeclaration header digits
  | later {b : UInt8} {header digits : Bytes}
      (hnone : ∀ other, ¬ StartsDeclaration (b :: header) other)
      (h : FirstDeclaration header digits) : FirstDeclaration (b :: header) digits

def lengthOf (digits : Bytes) : Nat := digits.foldl (fun total b => 10 * total + (b.toNat - 48)) 0

/-- The length that a header declares by its first declaration, which has no more digits than can be
read. A header without a declaration declares that there is no content. -/
inductive Declares (header : Bytes) : Nat → Prop
  | first {digits : Bytes} (hfirst : FirstDeclaration header digits)
      (hread : digits.length ≤ digitLimit) : Declares header (lengthOf digits)
  | nothing (hnone : HasNoDeclaration header) : Declares header 0

theorem isBlankOctet_of_isDigitOctet {b : UInt8} (h : isDigitOctet b = true) :
    isBlankOctet b = false := by
  simp only [isDigitOctet, Bool.and_eq_true, decide_eq_true_eq, UInt8.le_iff_toNat_le] at h
  simp only [isBlankOctet, Bool.or_eq_false_iff, Bool.and_eq_false_iff, decide_eq_false_iff_not,
    UInt8.le_iff_toNat_le, ← UInt8.toNat_inj]
  change 48 ≤ b.toNat ∧ b.toNat ≤ 57 at h
  change ¬ b.toNat = 32 ∧ (¬ 9 ≤ b.toNat ∨ ¬ b.toNat ≤ 13)
  omega

theorem digitValue?_octet {b : UInt8} (h : isDigitOctet b = true) :
    (digitValue? (Char.ofNat b.toNat)).getD 0 = b.toNat - 48 := by
  have hall : ∀ n < 256, isDigitOctet (UInt8.ofNat n) = true →
      (digitValue? (Char.ofNat n)).getD 0 = n - 48 := by decide +kernel
  exact hall b.toNat b.toNat_lt (by rwa [UInt8.ofNat_toNat])

theorem foldl_octets (h : ∀ b ∈ digits, isDigitOctet b = true) (n : Nat) :
    (digits.map fun b => Char.ofNat b.toNat).foldl
        (fun total c => 10 * total + (digitValue? c).getD 0) n =
      digits.foldl (fun total b => 10 * total + (b.toNat - 48)) n := by
  induction digits generalizing n with
  | nil => rfl
  | cons b rest ih =>
    obtain ⟨hb, hrest⟩ := List.forall_mem_cons.1 h
    rw [List.map_cons, List.foldl_cons, List.foldl_cons, digitValue?_octet hb, ih hrest]

theorem declarationAt?_eq_some_iff {text : List Char} :
    declarationAt? octets = some text ↔ ∃ digits, StartsDeclaration octets digits ∧
      text = digits.map fun b => Char.ofNat b.toNat := by
  constructor
  · intro h
    rw [declarationAt?] at h
    split at h
    case isFalse => cases h
    case isTrue hname =>
      simp only [Option.ite_none_left_eq_some, Option.some.injEq] at h
      obtain ⟨hsome, rfl⟩ := h
      let after := octets.drop lengthName.length
      refine ⟨(after.dropWhile isBlankOctet).takeWhile isDigitOctet,
        ⟨octets.take lengthName.length, after.takeWhile isBlankOctet,
          (after.dropWhile isBlankOctet).dropWhile isDigitOctet, ?_, hname,
          fun b hb => mem_takeWhile hb, by simpa using hsome, fun b hb => mem_takeWhile hb,
          stops_dropWhile isDigitOctet _⟩, rfl⟩
      rw [List.takeWhile_append_dropWhile, List.takeWhile_append_dropWhile, List.take_append_drop]
  · rintro ⟨digits, ⟨name, blanks, after, rfl, hname, hblanks, hsome, hdigits, hafter⟩, rfl⟩
    have hlength : name.length = lengthName.length := by rw [← hname, List.length_map]
    have hstops : Stops isBlankOctet (digits ++ after) := by
      cases digits with
      | nil => exact absurd rfl hsome
      | cons b rest =>
        exact .cons (isBlankOctet_of_isDigitOctet (hdigits b (List.mem_cons_self ..)))
    have hrun : (((name ++ (blanks ++ (digits ++ after))).drop lengthName.length).dropWhile
        isBlankOctet).takeWhile isDigitOctet = digits := by
      rw [← hlength, List.drop_left, dropWhile_run hblanks hstops, takeWhile_run hdigits hafter]
    rw [declarationAt?, hrun, ← hlength, List.take_left, if_pos hname,
      if_neg (by simpa using hsome)]

theorem declarationAt?_eq_none_iff :
    declarationAt? octets = none ↔ ∀ digits, ¬ StartsDeclaration octets digits := by
  constructor
  · intro h digits hstarts
    cases h.symm.trans (declarationAt?_eq_some_iff.2 ⟨digits, hstarts, rfl⟩)
  · intro h
    cases hfound : declarationAt? octets with
    | none => rfl
    | some text =>
      obtain ⟨digits, hstarts, -⟩ := declarationAt?_eq_some_iff.1 hfound
      exact absurd hstarts (h digits)

theorem not_startsDeclaration_nil (digits : Bytes) : ¬ StartsDeclaration [] digits :=
  declarationAt?_eq_none_iff.1 rfl digits

theorem hasNoDeclaration_nil : HasNoDeclaration [] := by
  rintro before after heq digits
  rw [(List.append_eq_nil_iff.1 heq.symm).2]
  exact not_startsDeclaration_nil digits

theorem hasNoDeclaration_cons {b : UInt8} :
    HasNoDeclaration (b :: header) ↔
      (∀ digits, ¬ StartsDeclaration (b :: header) digits) ∧ HasNoDeclaration header := by
  constructor
  · intro h
    exact ⟨h [] _ rfl, fun before after heq => h (b :: before) after (congrArg (b :: ·) heq)⟩
  · rintro ⟨hhere, hlater⟩ before after heq
    cases before with
    | nil =>
      obtain rfl : b :: header = after := heq
      exact hhere
    | cons c before => exact hlater before after (List.cons.inj heq).2

theorem declaration?_eq_none_iff : declaration? header = none ↔ HasNoDeclaration header := by
  induction header with
  | nil => exact iff_of_true rfl hasNoDeclaration_nil
  | cons b rest ih =>
    rw [hasNoDeclaration_cons, ← declarationAt?_eq_none_iff, ← ih, declaration?]
    cases declarationAt? (b :: rest) with
    | none => exact (and_iff_right rfl).symm
    | some text =>
      refine iff_of_false (Option.some_ne_none text) ?_
      rintro ⟨⟨⟩, -⟩

theorem declaration?_eq_some_iff {text : List Char} :
    declaration? header = some text ↔ ∃ digits, FirstDeclaration header digits ∧
      text = digits.map fun b => Char.ofNat b.toNat := by
  induction header with
  | nil =>
    refine iff_of_false (Option.some_ne_none text).symm ?_
    rintro ⟨digits, ⟨hstarts⟩, -⟩
    exact not_startsDeclaration_nil digits hstarts
  | cons b rest ih =>
    rw [declaration?]
    cases hhere : declarationAt? (b :: rest) with
    | none =>
      have hnone := declarationAt?_eq_none_iff.1 hhere
      refine ih.trans (exists_congr fun digits => and_congr_left' ?_)
      constructor
      · exact .later hnone
      · rintro (hstarts | ⟨-, hfirst⟩)
        · exact absurd hstarts (hnone digits)
        · exact hfirst
    | some found =>
      obtain ⟨digits, hstarts, rfl⟩ := declarationAt?_eq_some_iff.1 hhere
      constructor
      · intro heq
        exact ⟨digits, .here hstarts, (Option.some.inj heq).symm⟩
      · rintro ⟨other, hother | ⟨hnone, -⟩, rfl⟩
        · exact hhere.symm.trans (declarationAt?_eq_some_iff.2 ⟨other, hother, rfl⟩)
        · exact absurd hstarts (hnone digits)

theorem FirstDeclaration.isDigitOctet (h : FirstDeclaration header digits) :
    ∀ b ∈ digits, isDigitOctet b = true := by
  induction h with
  | here hstarts =>
    obtain ⟨_, _, _, -, -, -, -, hdigits, -⟩ := hstarts
    exact hdigits
  | later _ _ ih => exact ih

theorem declaredLength_eq_ok_iff {length : Nat} :
    declaredLength header = .ok length ↔ Declares header length := by
  rw [declaredLength]
  constructor
  · intro h
    cases hdeclared : declaration? header with
    | none =>
      rw [hdeclared] at h
      obtain rfl := Except.ok.inj h
      exact .nothing (declaration?_eq_none_iff.1 hdeclared)
    | some text =>
      obtain ⟨digits, hfirst, rfl⟩ := declaration?_eq_some_iff.1 hdeclared
      simp only [hdeclared, readDigits, List.length_map, digitsValue,
        foldl_octets hfirst.isDigitOctet] at h
      split at h
      · cases h
      · rename_i hread
        obtain rfl := Except.ok.inj h
        exact .first hfirst (Nat.not_lt.1 hread)
  · rintro (⟨hfirst, hread⟩ | hnone)
    · rw [declaration?_eq_some_iff.2 ⟨_, hfirst, rfl⟩]
      simp only
      rw [readDigits_eq_ok (by rwa [List.length_map]), digitsValue,
        foldl_octets hfirst.isDigitOctet]
      rfl
    · rw [declaration?_eq_none_iff.2 hnone]

theorem exists_declaredLength_error_iff :
    (∃ fault, declaredLength header = .error fault) ↔
      ∃ digits, FirstDeclaration header digits ∧ digitLimit < digits.length := by
  rw [declaredLength]
  constructor
  · rintro ⟨fault, h⟩
    cases hdeclared : declaration? header with
    | none =>
      rw [hdeclared] at h
      cases h
    | some text =>
      obtain ⟨digits, hfirst, rfl⟩ := declaration?_eq_some_iff.1 hdeclared
      simp only [hdeclared, readDigits, List.length_map] at h
      split at h
      · rename_i hlong
        exact ⟨digits, hfirst, hlong⟩
      · cases h
  · rintro ⟨digits, hfirst, hlong⟩
    rw [declaration?_eq_some_iff.2 ⟨_, hfirst, rfl⟩]
    exact ⟨_, if_pos (by rwa [List.length_map])⟩

/-! Headers end at the first blank line. -/

theorem length_separator : separator.length = 4 := rfl

def IsHeader (header : Bytes) : Prop :=
  ∀ before after, header ++ separator = before ++ (separator ++ after) → after = []

theorem isHeader_nil : IsHeader [] := by
  intro before after heq
  have hlength := congrArg List.length heq
  rw [List.nil_append, List.length_append, List.length_append] at hlength
  exact List.length_eq_zero_iff.1 (by omega)

theorem isHeader_cons {b : UInt8} :
    IsHeader (b :: header) ↔ ¬ separator <+: b :: (header ++ separator) ∧ IsHeader header := by
  constructor
  · intro h
    refine ⟨?_, fun before after heq => h (b :: before) after (congrArg (b :: ·) heq)⟩
    rintro ⟨after, heq⟩
    obtain rfl := h [] after heq.symm
    have hlength := congrArg List.length heq
    rw [List.append_nil, List.length_cons, List.length_append] at hlength
    omega
  · rintro ⟨hhere, hlater⟩ before after heq
    cases before with
    | nil => exact absurd ⟨after, heq.symm⟩ hhere
    | cons c before => exact hlater before after (List.cons.inj heq).2

/-- Whether a separator stands here is seen by the next four octets. -/
theorem separator_prefix_append {b : UInt8} (header body : Bytes) :
    separator <+: b :: (header ++ (separator ++ body)) ↔
      separator <+: b :: (header ++ separator) := by
  have hsplit : b :: (header ++ (separator ++ body)) = b :: (header ++ separator) ++ body := by
    simp only [List.cons_append, List.append_assoc]
  rw [hsplit]
  refine ⟨fun h => List.prefix_of_prefix_length_le h (List.prefix_append ..) ?_,
    List.prefix_append_of_prefix⟩
  rw [List.length_cons, List.length_append]
  omega

theorem splitHeader_eq_some_iff :
    splitHeader stream = some (header, body) ↔
      stream = header ++ (separator ++ body) ∧ IsHeader header := by
  induction stream generalizing header with
  | nil =>
    refine iff_of_false nofun ?_
    rintro ⟨heq, -⟩
    have hlength := congrArg List.length heq
    rw [List.length_append, List.length_append, length_separator] at hlength
    exact absurd hlength (by rw [List.length_nil]; omega)
  | cons b rest ih =>
    rw [splitHeader]
    split
    · rename_i hhere
      obtain ⟨after, heq⟩ := List.isPrefixOf_iff_prefix.1 hhere
      have hrest : rest.drop 3 = after := by
        have := congrArg (List.drop 4) heq
        exact this.symm
      rw [hrest, Option.some.injEq, Prod.mk.injEq]
      constructor
      · rintro ⟨rfl, rfl⟩
        exact ⟨heq.symm, isHeader_nil⟩
      · rintro ⟨hsplit, hheader⟩
        cases header with
        | nil => exact ⟨rfl, List.append_cancel_left (heq.trans hsplit)⟩
        | cons c header =>
          obtain ⟨rfl, rfl⟩ := List.cons.inj hsplit
          refine absurd ?_ (isHeader_cons.1 hheader).1
          exact (separator_prefix_append header body).1 ⟨after, heq⟩
    · rename_i hhere
      rw [Option.map_eq_some_iff]
      constructor
      · rintro ⟨⟨before, after⟩, hrest, heq⟩
        obtain ⟨rfl, rfl⟩ := Prod.mk.inj heq
        obtain ⟨rfl, hheader⟩ := ih.1 hrest
        refine ⟨rfl, isHeader_cons.2 ⟨fun h => hhere ?_, hheader⟩⟩
        exact List.isPrefixOf_iff_prefix.2 ((separator_prefix_append before after).2 h)
      · rintro ⟨hsplit, hheader⟩
        cases header with
        | nil => exact absurd (List.isPrefixOf_iff_prefix.2 ⟨body, hsplit.symm⟩) hhere
        | cons c header =>
          obtain ⟨rfl, rfl⟩ := List.cons.inj hsplit
          exact ⟨(header, body), ih.2 ⟨rfl, (isHeader_cons.1 hheader).2⟩, rfl⟩

/-! One block at the front of a stream. -/

structure IsBlock (header content : Bytes) : Prop where
  isHeader : IsHeader header
  declares : Declares header content.length

def block (header content : Bytes) : Bytes := header ++ (separator ++ content)

theorem takeFrame_eq_some_iff :
    takeFrame stream = .ok (some (content, rest)) ↔
      ∃ header, stream = block header content ++ rest ∧ IsBlock header content := by
  rw [takeFrame]
  constructor
  · intro h
    split at h
    · cases h
    · rename_i header body hsplit
      obtain ⟨rfl, hheader⟩ := splitHeader_eq_some_iff.1 hsplit
      split at h
      · cases h
      · rename_i length hlength
        have h := Except.ok.inj h
        split at h
        · cases h
        · rename_i henough
          obtain ⟨rfl, rfl⟩ := Prod.mk.inj (Option.some.inj h)
          refine ⟨header, ?_, hheader, ?_⟩
          · simp only [block, List.append_assoc, List.take_append_drop]
          · rw [List.length_take, Nat.min_eq_left (Nat.not_lt.1 henough)]
            exact declaredLength_eq_ok_iff.1 hlength
  · rintro ⟨header, rfl, hheader, hdeclares⟩
    have hsplit : splitHeader (block header content ++ rest) = some (header, content ++ rest) :=
      splitHeader_eq_some_iff.2 ⟨by simp only [block, List.append_assoc], hheader⟩
    have henough : ¬ (content ++ rest).length < content.length := by
      rw [List.length_append]
      omega
    rw [hsplit]
    simp only [declaredLength_eq_ok_iff.2 hdeclares, if_neg henough, List.take_left, List.drop_left]

/-- The reading stops at a header that declares a length of too many digits. -/
theorem exists_takeFrame_error_iff :
    (∃ fault, takeFrame stream = .error fault) ↔
      ∃ header body digits, stream = header ++ (separator ++ body) ∧ IsHeader header ∧
        FirstDeclaration header digits ∧ digitLimit < digits.length := by
  rw [takeFrame]
  constructor
  · rintro ⟨fault, h⟩
    split at h
    · cases h
    · rename_i header body hsplit
      obtain ⟨rfl, hheader⟩ := splitHeader_eq_some_iff.1 hsplit
      split at h
      · rename_i hfault
        obtain ⟨digits, hfirst, hlong⟩ := exists_declaredLength_error_iff.1 ⟨_, hfault⟩
        exact ⟨header, body, digits, rfl, hheader, hfirst, hlong⟩
      · cases h
  · rintro ⟨header, body, digits, rfl, hheader, hfirst, hlong⟩
    obtain ⟨fault, hfault⟩ := exists_declaredLength_error_iff.2 ⟨digits, hfirst, hlong⟩
    rw [splitHeader_eq_some_iff.2 ⟨rfl, hheader⟩]
    simp only [hfault]
    exact ⟨fault, rfl⟩

/-- What was taken stays taken when more comes. -/
theorem takeFrame_append_some (h : takeFrame stream = .ok (some (content, rest))) (more : Bytes) :
    takeFrame (stream ++ more) = .ok (some (content, rest ++ more)) := by
  obtain ⟨header, rfl, hblock⟩ := takeFrame_eq_some_iff.1 h
  exact takeFrame_eq_some_iff.2 ⟨header, List.append_assoc .., hblock⟩

theorem takeFrame_append_error {fault : IntegerFault} (h : takeFrame stream = .error fault)
    (more : Bytes) : takeFrame (stream ++ more) = .error fault := by
  rw [takeFrame] at h
  split at h
  · cases h
  · rename_i header body hsplit
    obtain ⟨rfl, hheader⟩ := splitHeader_eq_some_iff.1 hsplit
    have hmore :
        splitHeader (header ++ (separator ++ body) ++ more) = some (header, body ++ more) :=
      splitHeader_eq_some_iff.2 ⟨by simp only [List.append_assoc], hheader⟩
    split at h
    · rename_i hfault
      rw [takeFrame, hmore]
      simp only [hfault]
      exact h
    · cases h

/-- A frame takes at least its blank line away. -/
theorem length_of_takeFrame (h : takeFrame stream = .ok (some (content, rest))) :
    rest.length + content.length + 4 ≤ stream.length := by
  obtain ⟨header, rfl, -⟩ := takeFrame_eq_some_iff.1 h
  simp only [block, List.length_append, length_separator]
  omega

/-! All that can be taken from a stream. -/

theorem takeAtMost_congr {limit other : Nat} (hlimit : stream.length ≤ limit)
    (hother : stream.length ≤ other) : takeAtMost limit stream = takeAtMost other stream := by
  induction limit generalizing stream other with
  | zero =>
    obtain rfl := List.length_eq_zero_iff.1 (Nat.le_zero.1 hlimit)
    cases other <;> rfl
  | succ limit ih =>
    cases other with
    | zero =>
      obtain rfl := List.length_eq_zero_iff.1 (Nat.le_zero.1 hother)
      rfl
    | succ other =>
      rw [takeAtMost, takeAtMost]
      cases htake : takeFrame stream with
      | error fault => rfl
      | ok found =>
        cases found with
        | none => rfl
        | some found =>
          obtain ⟨content, rest⟩ := found
          have hless := takeFrame_length htake
          simp only [ih (show rest.length ≤ limit by omega) (show rest.length ≤ other by omega)]

/-- All frames of a stream are the first one and all those behind it. -/
theorem takeAll_eq (stream : Bytes) :
    takeAll stream = match takeFrame stream with
      | .error fault => ⟨[], stream, some fault⟩
      | .ok none => ⟨[], stream, none⟩
      | .ok (some (content, rest)) =>
        { takeAll rest with contents := content :: (takeAll rest).contents } := by
  rw [takeAll, takeAtMost_congr (Nat.le_refl _) (Nat.le_succ _), takeAtMost]
  cases htake : takeFrame stream with
  | error fault => rfl
  | ok found =>
    cases found with
    | none => rfl
    | some found =>
      obtain ⟨content, rest⟩ := found
      simp only [takeAtMost_congr (Nat.le_of_lt (takeFrame_length htake)) (Nat.le_refl _)]
      rfl

theorem takeAll_some (h : takeFrame stream = .ok (some (content, rest))) :
    takeAll stream = { takeAll rest with contents := content :: (takeAll rest).contents } := by
  rw [takeAll_eq, h]

/-- What holds where nothing can be taken, and holds of a stream if it holds of what is left of it
when a frame was taken, holds of all streams. -/
theorem stream_induction {motive : Bytes → Prop} (stream : Bytes)
    (stuck : ∀ stream fault, takeFrame stream = .error fault →
      takeAll stream = ⟨[], stream, some fault⟩ → motive stream)
    (unfinished : ∀ stream, takeFrame stream = .ok none → takeAll stream = ⟨[], stream, none⟩ →
      motive stream)
    (taken : ∀ stream content rest, takeFrame stream = .ok (some (content, rest)) →
      takeAll stream = { takeAll rest with contents := content :: (takeAll rest).contents } →
      motive rest → motive stream) : motive stream := by
  induction hn : stream.length using Nat.strongRecOn generalizing stream with
  | ind n ih =>
    subst hn
    have heq := takeAll_eq stream
    cases htake : takeFrame stream with
    | error fault => exact stuck stream fault htake (by rw [heq, htake])
    | ok found =>
      cases found with
      | none => exact unfinished stream htake (by rw [heq, htake])
      | some found =>
        obtain ⟨content, rest⟩ := found
        exact taken stream content rest htake (takeAll_some htake)
          (ih rest.length (takeFrame_length htake) rest rfl)

/-- The taking ends only where nothing more can be taken. -/
theorem takeFrame_rest (stream : Bytes) :
    takeFrame (takeAll stream).rest = match (takeAll stream).fault with
      | some fault => .error fault
      | none => .ok none := by
  induction stream using stream_induction with
  | stuck stream fault htake hall => rwa [hall]
  | unfinished stream htake hall => rwa [hall]
  | taken stream content rest htake hall ih => rwa [hall]

/-- No octet is lost: a stream is its blocks one after the other and the rest. -/
theorem exists_blocks (stream : Bytes) :
    ∃ blocks : List (Bytes × Bytes), (takeAll stream).contents = blocks.map Prod.snd ∧
      stream = (blocks.flatMap fun b => block b.1 b.2) ++ (takeAll stream).rest ∧
      ∀ b ∈ blocks, IsBlock b.1 b.2 := by
  induction stream using stream_induction with
  | stuck stream fault htake hall => exact ⟨[], by rw [hall]; rfl, by rw [hall]; rfl, nofun⟩
  | unfinished stream htake hall => exact ⟨[], by rw [hall]; rfl, by rw [hall]; rfl, nofun⟩
  | taken stream content rest htake hall ih =>
    obtain ⟨blocks, hcontents, hstream, hblocks⟩ := ih
    obtain ⟨header, rfl, hblock⟩ := takeFrame_eq_some_iff.1 htake
    refine ⟨(header, content) :: blocks, ?_, ?_, List.forall_mem_cons.2 ⟨hblock, hblocks⟩⟩
    · rw [hall, List.map_cons, ← hcontents]
    · rw [hall, List.flatMap_cons, List.append_assoc, ← hstream]

def Taken.followedBy (taken : Taken) (more : Bytes) : Taken :=
  match taken.fault with
  | some _ => { taken with rest := taken.rest ++ more }
  | none =>
    let next := takeAll (taken.rest ++ more)
    { next with contents := taken.contents ++ next.contents }

theorem takeAll_followedBy (stream more : Bytes) :
    takeAll (stream ++ more) = (takeAll stream).followedBy more := by
  induction stream using stream_induction with
  | stuck stream fault htake hall =>
    rw [takeAll_eq, takeFrame_append_error htake, hall]
    rfl
  | unfinished stream htake hall =>
    rw [hall]
    rfl
  | taken stream content rest htake hall ih =>
    rw [takeAll_some (takeFrame_append_some htake more), ih, hall, Taken.followedBy,
      Taken.followedBy]
    cases (takeAll rest).fault <;> rfl

/-! Frames behind octets that declare no length. -/

theorem StartsDeclaration.append (h : StartsDeclaration octets digits) (more : Bytes) :
    ∃ others, StartsDeclaration (octets ++ more) others := by
  obtain ⟨name, blanks, after, rfl, hname, hblanks, hsome, hdigits, -⟩ := h
  refine ⟨digits ++ (after ++ more).takeWhile isDigitOctet, name, blanks,
    (after ++ more).dropWhile isDigitOctet, ?_, hname, hblanks, ?_, ?_,
    stops_dropWhile isDigitOctet _⟩
  · simp only [List.append_assoc, List.takeWhile_append_dropWhile]
  · exact fun hnil => hsome (List.append_eq_nil_iff.1 hnil).1
  · exact List.forall_mem_append.2 ⟨hdigits, fun b hb => mem_takeWhile hb⟩

theorem HasNoDeclaration.of_append_left (h : HasNoDeclaration (octets ++ rest)) :
    HasNoDeclaration octets := by
  rintro before after rfl digits hstarts
  obtain ⟨others, hstarts⟩ := hstarts.append rest
  exact h before (after ++ rest) (List.append_assoc ..) others hstarts

theorem HasNoDeclaration.of_append_right (h : HasNoDeclaration (octets ++ rest)) :
    HasNoDeclaration rest := by
  rintro before after rfl
  exact h (octets ++ before) after (List.append_assoc ..).symm

theorem HasNoDeclaration.isBlock (h : HasNoDeclaration header) (hheader : IsHeader header) :
    IsBlock header [] :=
  ⟨hheader, .nothing h⟩

def lineEnd : Bytes := utf8 "\r\n"

/-- The first blank line after some octets that a blank line follows: it stands in them, or it is
the one that follows, or it begins with a line end that they end with. -/
theorem header_cases (octets : Bytes) :
    (∃ header later, octets = header ++ (separator ++ later) ∧ IsHeader header) ∨
      IsHeader octets ∨ ∃ header, octets = header ++ lineEnd ∧ IsHeader header := by
  have hseparator : separator = [0x0D, 0x0A, 0x0D, 0x0A] := rfl
  have hlineEnd : lineEnd = [0x0D, 0x0A] := rfl
  induction octets with
  | nil => exact .inr (.inl isHeader_nil)
  | cons b octets ih =>
    by_cases hhere : separator <+: b :: (octets ++ separator)
    · obtain ⟨after, heq⟩ := hhere
      rw [hseparator] at heq
      -- A separator that starts here and stands across the end starts two octets before it.
      rcases octets with _ | ⟨c, _ | ⟨d, _ | ⟨e, later⟩⟩⟩
      · simp at heq
      · simp only [List.cons_append, List.nil_append, List.cons.injEq] at heq
        obtain ⟨rfl, rfl, -⟩ := heq
        exact .inr (.inr ⟨[], rfl, isHeader_nil⟩)
      · simp at heq
      · simp only [List.cons_append, List.nil_append, List.cons.injEq] at heq
        obtain ⟨rfl, rfl, rfl, rfl, -⟩ := heq
        exact .inl ⟨[], later, rfl, isHeader_nil⟩
    · obtain ⟨header, later, rfl, hheader⟩ | hheader | ⟨header, rfl, hheader⟩ := ih
      · refine .inl ⟨b :: header, later, rfl, isHeader_cons.2 ⟨fun h => hhere ?_, hheader⟩⟩
        rw [List.append_assoc, List.append_assoc]
        exact (separator_prefix_append header (later ++ separator)).2 h
      · exact .inr (.inl (isHeader_cons.2 ⟨hhere, hheader⟩))
      · refine .inr (.inr ⟨b :: header, rfl, isHeader_cons.2 ⟨fun h => hhere ?_, hheader⟩⟩)
        have hsplit : header ++ lineEnd ++ separator = header ++ (separator ++ lineEnd) := by
          rw [List.append_assoc]
          rfl
        rw [hsplit]
        exact (separator_prefix_append header lineEnd).2 h

/-- Octets that declare no length are passed over with the blank line behind them, but for a line
end that may be left of it. -/
theorem takeAll_garbage {garbage : Bytes} (h : HasNoDeclaration garbage) :
    ∃ count left, (left = [] ∨ left = lineEnd) ∧ ∀ tail,
      takeAll (garbage ++ (separator ++ tail)) = { takeAll (left ++ tail) with
        contents := List.replicate count [] ++ (takeAll (left ++ tail)).contents } := by
  induction hn : garbage.length using Nat.strongRecOn generalizing garbage with
  | ind n ih =>
    subst hn
    have hpassed {header tail : Bytes} (hblock : IsBlock header []) :
        takeAll (header ++ (separator ++ tail)) =
          { takeAll tail with contents := [] :: (takeAll tail).contents } :=
      takeAll_some (takeFrame_eq_some_iff.2
        ⟨header, by simp only [block, List.append_assoc, List.nil_append], hblock⟩)
    obtain ⟨header, later, rfl, hheader⟩ | hheader | ⟨header, rfl, hheader⟩ := header_cases garbage
    · have hless : later.length < (header ++ (separator ++ later)).length := by
        rw [List.length_append, List.length_append, length_separator]
        omega
      obtain ⟨count, left, hleft, hall⟩ := ih _ hless h.of_append_right.of_append_right rfl
      refine ⟨count + 1, left, hleft, fun tail => ?_⟩
      have hblock := h.of_append_left.isBlock hheader
      rw [List.append_assoc, List.append_assoc, hpassed hblock, hall]
      rfl
    · exact ⟨1, [], .inl rfl, fun tail => hpassed (h.isBlock hheader)⟩
    · refine ⟨1, lineEnd, .inr rfl, fun tail => ?_⟩
      have hsplit : header ++ lineEnd ++ (separator ++ tail) =
          header ++ (separator ++ (lineEnd ++ tail)) := by
        rw [List.append_assoc]
        rfl
      rw [hsplit]
      exact hpassed (h.of_append_left.isBlock hheader)

structure IsFrame (header content : Bytes) : Prop extends IsBlock header content where
  starts : ∃ b rest, header = b :: rest ∧ b ≠ 0x0D

theorem StartsDeclaration.lowerOctet_head {b : UInt8} (h : StartsDeclaration (b :: header) digits) :
    lowerOctet b = 0x63 := by
  obtain ⟨name, blanks, after, hsplit, hname, -⟩ := h
  cases name with
  | nil => cases hname
  | cons c name =>
    obtain ⟨rfl, -⟩ := List.cons.inj hsplit
    exact (List.cons.inj hname).1

theorem Declares.cons {b : UInt8} {length : Nat} (h : Declares header length)
    (hb : lowerOctet b ≠ 0x63) : Declares (b :: header) length := by
  have hnone : ∀ digits, ¬ StartsDeclaration (b :: header) digits :=
    fun digits hstarts => hb hstarts.lowerOctet_head
  cases h with
  | first hfirst hread => exact .first (.later hnone hfirst) hread
  | nothing h => exact .nothing (hasNoDeclaration_cons.2 ⟨hnone, h⟩)

/-- A frame is taken as it is, also when a line end is left before it. -/
theorem IsFrame.after_lineEnd (h : IsFrame header content) {left : Bytes}
    (hleft : left = [] ∨ left = lineEnd) : IsBlock (left ++ header) content := by
  obtain ⟨⟨hheader, hdeclares⟩, b, rest, rfl, hb⟩ := h
  obtain rfl | rfl := hleft
  · exact ⟨hheader, hdeclares⟩
  · refine ⟨isHeader_cons.2 ⟨?_, isHeader_cons.2 ⟨?_, hheader⟩⟩,
      (hdeclares.cons (by decide)).cons (by decide)⟩
    · rintro ⟨after, heq⟩
      have hthird := congrArg (fun octets => octets[2]?) heq
      exact hb (Option.some.inj hthird).symm
    · rintro ⟨after, heq⟩
      have hfirst := congrArg List.head? heq
      cases hfirst

theorem takeAll_blocks {blocks : List (Bytes × Bytes)} (h : ∀ b ∈ blocks, IsBlock b.1 b.2)
    (more : Bytes) :
    takeAll ((blocks.flatMap fun b => block b.1 b.2) ++ more) =
      { takeAll more with contents := blocks.map Prod.snd ++ (takeAll more).contents } := by
  induction blocks with
  | nil => rfl
  | cons first blocks ih =>
    obtain ⟨hfirst, hblocks⟩ := List.forall_mem_cons.1 h
    rw [List.flatMap_cons, List.append_assoc,
      takeAll_some (takeFrame_eq_some_iff.2 ⟨first.1, rfl, hfirst⟩), ih hblocks]
    rfl

/-- Frames behind octets that declare no length and a blank line are all taken. -/
theorem takeAll_garbage_frames {garbage : Bytes} {frames : List (Bytes × Bytes)}
    (hgarbage : HasNoDeclaration garbage) (hframes : ∀ f ∈ frames, IsFrame f.1 f.2)
    (hsome : frames ≠ []) :
    ∃ count, ∀ more,
      takeAll (garbage ++ (separator ++ ((frames.flatMap fun f => block f.1 f.2) ++ more))) =
        { takeAll more with
          contents := List.replicate count [] ++
            (frames.map Prod.snd ++ (takeAll more).contents) } := by
  obtain ⟨count, left, hleft, hall⟩ := takeAll_garbage hgarbage
  refine ⟨count, fun more => ?_⟩
  rw [hall]
  cases frames with
  | nil => exact absurd rfl hsome
  | cons first frames =>
    obtain ⟨hfirst, hframes⟩ := List.forall_mem_cons.1 hframes
    let blocks := (left ++ first.1, first.2) :: frames
    have hblocks : ∀ b ∈ blocks, IsBlock b.1 b.2 :=
      List.forall_mem_cons.2 ⟨hfirst.after_lineEnd hleft, fun b hb => (hframes b hb).toIsBlock⟩
    have hstream : left ++ (((first :: frames).flatMap fun f => block f.1 f.2) ++ more) =
        (blocks.flatMap fun b => block b.1 b.2) ++ more := by
      simp only [blocks, List.flatMap_cons, block, List.append_assoc]
    rw [hstream, takeAll_blocks hblocks]
    rfl

end ProjectCheck.Frame
