import ProjectCheck.Proofs.Text.Digits
import ProjectCheck.Proofs.Text.Runs
import ProjectCheck.Server.Frame

/-!
Frames are taken from a stream as they were put into it, wherever the stream is cut. A stream of
frames that is cut somewhere is some whole frames and an unfinished one, from which nothing is taken
before more of it has come.
-/
namespace ProjectCheck.Frame

open Text

variable {header body content rest stream : Bytes} {contents left : List Bytes}

/-! The header of a frame is of the ASCII alphabet, so that its octets are its characters. -/

def octetOf (c : Char) : UInt8 := UInt8.ofNat c.toNat

theorem encodeUtf8_ascii {s : List Char} (h : ∀ c ∈ s, c.toNat ≤ 0x7F) :
    encodeUtf8 s = s.map octetOf := by
  induction s with
  | nil => rfl
  | cons c rest ih =>
    have hc : String.utf8EncodeChar c = [octetOf c] := by
      rw [String.utf8EncodeChar]
      exact if_pos (h c (List.mem_cons_self ..))
    have hrest := ih fun d hd => h d (List.mem_cons_of_mem c hd)
    rw [encodeUtf8] at hrest ⊢
    rw [List.flatMap_cons, hrest, hc]
    rfl

theorem toNat_octetOf {c : Char} (h : isAsciiDigit c = true) : (octetOf c).toNat = c.toNat := by
  rw [isAsciiDigit_iff] at h
  rw [octetOf, UInt8.toNat_ofNat_of_lt' (by change c.toNat < 256; omega)]

theorem isDigitOctet_octetOf {c : Char} (h : isAsciiDigit c = true) :
    isDigitOctet (octetOf c) = true := by
  have hoctet := toNat_octetOf h
  rw [isAsciiDigit_iff] at h
  simp only [isDigitOctet, Bool.and_eq_true, decide_eq_true_eq, UInt8.le_iff_toNat_le, hoctet]
  exact h

theorem isBlankOctet_octetOf {c : Char} (h : isAsciiDigit c = true) :
    isBlankOctet (octetOf c) = false := by
  have hoctet := toNat_octetOf h
  rw [isAsciiDigit_iff] at h
  simp only [isBlankOctet, Bool.or_eq_false_iff, Bool.and_eq_false_iff, decide_eq_false_iff_not,
    UInt8.le_iff_toNat_le, ← UInt8.toNat_inj, hoctet]
  constructor
  · change c.toNat ≠ 32
    omega
  · right
    change ¬ c.toNat ≤ 13
    omega

theorem ofNat_toNat_octetOf {c : Char} (h : isAsciiDigit c = true) :
    Char.ofNat (octetOf c).toNat = c := by
  rw [toNat_octetOf h, Char.ofNat_toNat]

def lengthPrefix : Bytes := utf8 "Content-Length: "

def lengthOctets (length : Nat) : Bytes := (Nat.toDigits 10 length).map octetOf

theorem header_eq (length : Nat) :
    utf8 s!"Content-Length: {length}" = lengthPrefix ++ lengthOctets length := by
  have htext : s!"Content-Length: {length}".toList =
      "Content-Length: ".toList ++ Nat.toDigits 10 length := by
    simp [toString]
  have hdigits : ∀ c ∈ Nat.toDigits 10 length, c.toNat ≤ 0x7F := by
    intro c hc
    have := (isAsciiDigit_iff c).1 (isAsciiDigit_of_mem_toDigits hc)
    omega
  rw [utf8, htext, encodeUtf8, List.flatMap_append, lengthOctets, ← encodeUtf8_ascii hdigits]
  rfl

/-! The header ends at the first separator, since no carriage return stands in it. -/

theorem not_isPrefixOf_separator {b : UInt8} (h : b ≠ 0x0D) (rest : Bytes) :
    separator.isPrefixOf (b :: rest) = false := by
  have hb : (0x0D == b) = false := beq_eq_false_iff_ne.2 (Ne.symm h)
  change (0x0D == b && [0x0A, 0x0D, 0x0A].isPrefixOf rest) = false
  rw [hb, Bool.false_and]

theorem splitHeader_append (h : (0x0D : UInt8) ∉ header) (body : Bytes) :
    splitHeader (header ++ separator ++ body) = some (header, body) := by
  induction header with
  | nil => rfl
  | cons b header ih =>
    obtain ⟨hb, hheader⟩ : 0x0D ≠ b ∧ 0x0D ∉ header := by
      rwa [List.mem_cons, not_or] at h
    simp only [List.cons_append, splitHeader, not_isPrefixOf_separator (Ne.symm hb),
      Bool.false_eq_true, ↓reduceIte, ih hheader, Option.map_some]

/-- A header without its whole separator is no header yet. -/
theorem splitHeader_take (h : (0x0D : UInt8) ∉ header) {size : Nat}
    (hsize : size < (header ++ separator).length) :
    splitHeader ((header ++ separator).take size) = none := by
  induction header generalizing size with
  | nil =>
    have hcuts : ∀ size < separator.length, splitHeader (separator.take size) = none := by decide
    exact hcuts size hsize
  | cons b header ih =>
    obtain ⟨hb, hheader⟩ : 0x0D ≠ b ∧ 0x0D ∉ header := by
      rwa [List.mem_cons, not_or] at h
    cases size with
    | zero => rfl
    | succ size =>
      have hshorter : size < (header ++ separator).length := by simpa using hsize
      simp only [List.cons_append, List.take_succ_cons, splitHeader,
        not_isPrefixOf_separator (Ne.symm hb), Bool.false_eq_true, ↓reduceIte,
        ih hheader hshorter, Option.map_none]

/-! The header declares the length of the content. -/

theorem mem_lengthOctets {b : UInt8} {length : Nat} (h : b ∈ lengthOctets length) :
    ∃ c, isAsciiDigit c = true ∧ octetOf c = b := by
  obtain ⟨c, hc, rfl⟩ := List.mem_map.1 h
  exact ⟨c, isAsciiDigit_of_mem_toDigits hc, rfl⟩

theorem stops_lengthOctets (length : Nat) : Stops isBlankOctet (lengthOctets length) := by
  intro b hb
  obtain ⟨c, hc, rfl⟩ := mem_lengthOctets (List.mem_of_mem_head? hb)
  exact isBlankOctet_octetOf hc

theorem map_lengthOctets (length : Nat) :
    (lengthOctets length).map (fun b => Char.ofNat b.toNat) = Nat.toDigits 10 length := by
  rw [lengthOctets, List.map_map]
  conv => rhs; rw [← List.map_id (Nat.toDigits 10 length)]
  exact List.map_congr_left fun c hc => ofNat_toNat_octetOf (isAsciiDigit_of_mem_toDigits hc)

theorem declarationAt?_header (length : Nat) :
    declarationAt? (lengthPrefix ++ lengthOctets length) = some (Nat.toDigits 10 length) := by
  have hsplit : lengthPrefix = utf8 "Content-Length:" ++ [0x20] := by decide
  have hname : ((utf8 "Content-Length:").take lengthName.length).map lowerOctet = lengthName := by
    decide
  have hlength : (utf8 "Content-Length:").length = lengthName.length := by decide
  have hblank : ∀ b ∈ [0x20], isBlankOctet b = true := by
    intro b hb
    rw [List.mem_singleton.1 hb]
    rfl
  have hblanks : ((0x20 :: lengthOctets length).dropWhile isBlankOctet) = lengthOctets length :=
    dropWhile_run hblank (stops_lengthOctets length)
  have hdigits : (lengthOctets length).takeWhile isDigitOctet = lengthOctets length := by
    have hall : ∀ b ∈ lengthOctets length, isDigitOctet b = true := by
      intro b hb
      obtain ⟨c, hc, rfl⟩ := mem_lengthOctets hb
      exact isDigitOctet_octetOf hc
    exact takeWhile_eq_self hall
  have hsome : (lengthOctets length).isEmpty = false := by
    rw [lengthOctets, List.isEmpty_map, List.isEmpty_eq_false_iff]
    exact Nat.toDigits_ne_nil
  have htake : (lengthPrefix ++ lengthOctets length).take lengthName.length =
      (utf8 "Content-Length:").take lengthName.length := by
    rw [hsplit, List.append_assoc, List.take_append_of_le_length (Nat.le_of_eq hlength.symm)]
  have hdrop : (lengthPrefix ++ lengthOctets length).drop lengthName.length =
      0x20 :: lengthOctets length := by
    rw [hsplit, List.append_assoc, ← hlength, List.drop_left]
    rfl
  simp only [declarationAt?, htake, hname, ↓reduceIte, hdrop, hblanks, hdigits, hsome,
    Bool.false_eq_true, map_lengthOctets]

theorem declaredLength_header {length : Nat}
    (h : (Nat.toDigits 10 length).length ≤ digitLimit) :
    declaredLength (utf8 s!"Content-Length: {length}") = .ok length := by
  have hcons : ∃ b rest, lengthPrefix ++ lengthOctets length = b :: rest :=
    ⟨_, _, List.cons_append ..⟩
  obtain ⟨b, rest, hcons⟩ := hcons
  have hdeclared : declaration? (lengthPrefix ++ lengthOctets length) =
      some (Nat.toDigits 10 length) := by
    rw [hcons, declaration?, ← hcons, declarationAt?_header]
  rw [header_eq, declaredLength, hdeclared]
  simp only [readDigits_eq_ok h, digitsValue_toDigits]

theorem not_mem_header (length : Nat) : (0x0D : UInt8) ∉ utf8 s!"Content-Length: {length}" := by
  rw [header_eq, List.mem_append, not_or]
  refine ⟨by decide, fun hmem => ?_⟩
  obtain ⟨c, hc, heq⟩ := mem_lengthOctets hmem
  have hdigit := isDigitOctet_octetOf hc
  rw [heq] at hdigit
  exact absurd hdigit (by decide)

/-! One frame at the front of a stream. -/

theorem ofContent_ne_nil (content : Bytes) : ofContent content ≠ [] := by
  simp [ofContent, separator, utf8, encodeUtf8]

theorem takeFrame_append (h : isMeasurable content = true) (rest : Bytes) :
    takeFrame (ofContent content ++ rest) = .ok (some (content, rest)) := by
  have hlength := declaredLength_header (of_decide_eq_true h)
  have hsplit : splitHeader (ofContent content ++ rest) =
      some (utf8 s!"Content-Length: {content.length}", content ++ rest) := by
    rw [ofContent, List.append_assoc]
    exact splitHeader_append (not_mem_header content.length) (content ++ rest)
  have henough : ¬ (content ++ rest).length < content.length := by
    rw [List.length_append]
    omega
  simp only [takeFrame, hsplit, hlength, if_neg henough, List.take_left, List.drop_left]

/-- Nothing is taken from the start of a frame. -/
theorem takeFrame_take (h : isMeasurable content = true) {size : Nat}
    (hsize : size < (ofContent content).length) :
    takeFrame ((ofContent content).take size) = .ok none := by
  have hlength := declaredLength_header (of_decide_eq_true h)
  have hheader := not_mem_header content.length
  generalize hh : utf8 s!"Content-Length: {content.length}" = header at hlength hheader
  have hframe : ofContent content = header ++ separator ++ content := by rw [ofContent, hh]
  rw [hframe, List.length_append] at hsize
  rw [hframe, List.take_append]
  by_cases hcut : size < (header ++ separator).length
  · have hnone : (content.take (size - (header ++ separator).length)) = [] := by
      rw [Nat.sub_eq_zero_of_le (by omega), List.take_zero]
    simp only [hnone, List.append_nil, takeFrame, splitHeader_take hheader hcut]
  · have hshort : (content.take (size - (header ++ separator).length)).length < content.length := by
      rw [List.length_take]
      omega
    simp only [List.take_of_length_le (by omega : (header ++ separator).length ≤ size), takeFrame,
      splitHeader_append hheader, hlength, if_pos hshort]

/-! Streams of frames. -/

def Unfinished : List Bytes → Bytes → Prop
  | [], rest => rest = []
  | content :: _, rest => ∃ size < (ofContent content).length, rest = (ofContent content).take size

theorem Unfinished.nil (contents : List Bytes) : Unfinished contents [] := by
  cases contents with
  | nil => rfl
  | cons content _ => exact ⟨0, List.length_pos_iff.2 (ofContent_ne_nil content), rfl⟩

/-- What is left is nothing when it is all that was to come. -/
theorem Unfinished.eq_nil (h : Unfinished left rest) (hall : left.flatMap ofContent = rest) :
    left = [] ∧ rest = [] := by
  cases left with
  | nil => exact ⟨rfl, h⟩
  | cons content left =>
    obtain ⟨size, hsize, rfl⟩ := h
    have := congrArg List.length hall
    simp only [List.flatMap_cons, List.length_append, List.length_take] at this
    omega

theorem takeFrame_unfinished (hleft : ∀ content ∈ left, isMeasurable content = true)
    (h : Unfinished left rest) : takeFrame rest = .ok none := by
  cases left with
  | nil =>
    cases h
    rfl
  | cons content left =>
    obtain ⟨size, hsize, rfl⟩ := h
    exact takeFrame_take (hleft content (List.mem_cons_self ..)) hsize

theorem takeAtMost_append (hcontents : ∀ content ∈ contents, isMeasurable content = true)
    (hrest : takeFrame rest = .ok none) {limit : Nat} (hlimit : contents.length ≤ limit) :
    takeAtMost limit (contents.flatMap ofContent ++ rest) = ⟨contents, rest, none⟩ := by
  induction contents generalizing limit with
  | nil =>
    cases limit with
    | zero => rfl
    | succ limit => simp only [List.flatMap_nil, List.nil_append, takeAtMost, hrest]
  | cons content contents ih =>
    cases limit with
    | zero => exact absurd hlimit (Nat.not_succ_le_zero _)
    | succ limit =>
      have hfirst := hcontents content (List.mem_cons_self ..)
      have hothers := ih (fun other h => hcontents other (List.mem_cons_of_mem content h))
        (Nat.le_of_succ_le_succ hlimit)
      simp only [List.flatMap_cons, List.append_assoc, takeAtMost, takeFrame_append hfirst,
        hothers]

theorem length_le_length_flatMap_ofContent (contents : List Bytes) :
    contents.length ≤ (contents.flatMap ofContent).length := by
  induction contents with
  | nil => exact Nat.le_refl 0
  | cons content contents ih =>
    have := List.length_pos_iff.2 (ofContent_ne_nil content)
    rw [List.flatMap_cons, List.length_append, List.length_cons]
    omega

/-- The frames of a stream are taken from it, and what is left is the unfinished one. -/
theorem takeAll_append (hcontents : ∀ content ∈ contents ++ left, isMeasurable content = true)
    (hrest : Unfinished left rest) :
    takeAll (contents.flatMap ofContent ++ rest) = ⟨contents, rest, none⟩ := by
  have hnone := takeFrame_unfinished
    (fun content h => hcontents content (List.mem_append_right contents h)) hrest
  refine takeAtMost_append (fun content h => hcontents content (List.mem_append_left left h))
    hnone ?_
  have := length_le_length_flatMap_ofContent contents
  rw [List.length_append]
  omega

/-- A stream of frames that is cut somewhere is some whole frames and an unfinished one. -/
theorem exists_cut (h : stream <+: contents.flatMap ofContent) :
    ∃ whole left rest, contents = whole ++ left ∧ stream = whole.flatMap ofContent ++ rest ∧
      Unfinished left rest := by
  induction contents generalizing stream with
  | nil => exact ⟨[], [], [], rfl, List.prefix_nil.1 h, rfl⟩
  | cons content contents ih =>
    rw [List.flatMap_cons] at h
    by_cases hcut : stream.length < (ofContent content).length
    · have hstart : stream <+: ofContent content :=
        List.prefix_of_prefix_length_le h (List.prefix_append ..) (Nat.le_of_lt hcut)
      exact ⟨[], content :: contents, stream, rfl, rfl, stream.length, hcut,
        List.prefix_iff_eq_take.1 hstart⟩
    · have hframe : ofContent content <+: stream :=
        List.prefix_of_prefix_length_le (List.prefix_append ..) h (by omega)
      obtain ⟨after, rfl⟩ := hframe
      rw [List.prefix_append_right_inj] at h
      obtain ⟨whole, left, rest, rfl, rfl, hrest⟩ := ih h
      refine ⟨content :: whole, left, rest, rfl, ?_, hrest⟩
      rw [List.flatMap_cons, List.append_assoc]

end ProjectCheck.Frame
