import ProjectCheck.Files.Uri
import ProjectCheck.Proofs.Text.Loose

/-!
URIs name paths. The decoded form of a path's URI is the path after the scheme, its octets decoded,
so that documents of different paths of characters are known under different keys. Octets that are
no UTF-8 all decode to the same character, and paths that have them can share a key.
-/
namespace ProjectCheck

open Text

/-- The characters that the octets of a path are read as. Octets that are part of no character are
all read as the same one. -/
def Path.reading (path : Path) : List Char := decodeUtf8Lossy path.text.octets

namespace Uri

theorem ofNat_toNat_of_isUnreserved {b : UInt8} (h : isUnreserved b = true) :
    Char.ofNat b.toNat ≠ '%' ∧ isAscii (Char.ofNat b.toNat) = true ∧
      UInt8.ofNat (Char.ofNat b.toNat).toNat = b := by
  have hall : ∀ n < 256, isUnreserved (UInt8.ofNat n) = true →
      Char.ofNat n ≠ '%' ∧ isAscii (Char.ofNat n) = true ∧
        UInt8.ofNat (Char.ofNat n).toNat = UInt8.ofNat n := by decide +kernel
  have hb : UInt8.ofNat b.toNat = b := UInt8.ofNat_toNat
  simpa only [hb] using hall b.toNat b.toNat_lt (by rwa [hb])

theorem exists_escapeOctet (b : UInt8) :
    ∃ high low, escapeOctet b = ['%', high, low] ∧ isAscii high = true ∧ isAscii low = true ∧
      hexNumber? [high, low] = some b.toNat := by
  have hall : ∀ n < 256, (escapeOctet (UInt8.ofNat n)).all isAscii = true ∧
      hexNumber? (escapeOctet (UInt8.ofNat n)).tail = some n := by decide +kernel
  have hb : UInt8.ofNat b.toNat = b := UInt8.ofNat_toNat
  obtain ⟨hascii, hnumber⟩ := hall b.toNat b.toNat_lt
  rw [hb, List.all_eq_true] at hascii
  rw [hb] at hnumber
  refine ⟨_, _, rfl, ?_, ?_, hnumber⟩ <;> exact hascii _ (by simp [escapeOctet, hexDigits])

/-- What one octet is written as is ASCII and is read back, whatever follows it. -/
theorem decodeOctets_encodeOctet (b : UInt8) (rest : List Char) :
    let written := if isUnreserved b then [Char.ofNat b.toNat] else escapeOctet b
    (∀ c ∈ written, isAscii c = true) ∧
      decodeOctets (written ++ rest) = b :: decodeOctets rest := by
  intro written
  by_cases hplain : isUnreserved b = true
  · obtain ⟨hpercent, hascii, hsame⟩ := ofNat_toNat_of_isUnreserved hplain
    have hwritten : written = [Char.ofNat b.toNat] := if_pos hplain
    rw [hwritten]
    refine ⟨List.forall_mem_singleton.2 hascii, ?_⟩
    rw [List.singleton_append, decodeOctets, hsame]
    exact fun _ _ _ heq => absurd heq hpercent
  · obtain ⟨high, low, hescape, hhigh, hlow, hnumber⟩ := exists_escapeOctet b
    have hwritten : written = ['%', high, low] := (if_neg hplain).trans hescape
    rw [hwritten]
    refine ⟨?_, ?_⟩
    · simp only [List.forall_mem_cons, hhigh, hlow]
      exact ⟨rfl, trivial, trivial, nofun⟩
    · simp only [List.cons_append, List.nil_append, decodeOctets, hnumber, UInt8.ofNat_toNat]

theorem decodeOctets_encodeOctets (bytes : Bytes) :
    (∀ c ∈ encodeOctets bytes, isAscii c = true) ∧ decodeOctets (encodeOctets bytes) = bytes := by
  induction bytes with
  | nil => exact ⟨nofun, rfl⟩
  | cons b rest ih =>
    obtain ⟨hascii, hread⟩ := decodeOctets_encodeOctet b (encodeOctets rest)
    have hcons : encodeOctets (b :: rest) =
        (if isUnreserved b then [Char.ofNat b.toNat] else escapeOctet b) ++ encodeOctets rest :=
      List.flatMap_cons
    rw [hcons, hread, ih.2]
    exact ⟨List.forall_mem_append.2 ⟨hascii, ih.1⟩, rfl⟩

/-- A run of ASCII characters is decoded as a whole. -/
theorem decodeChars_of_ascii {text : List Char} (h : ∀ c ∈ text, isAscii c = true)
    (run : List Char) :
    decodeChars run text = decodeUtf8Lossy (decodeOctets (run.reverse ++ text)) := by
  induction text generalizing run with
  | nil => rw [decodeChars, List.append_nil]
  | cons c rest ih =>
    obtain ⟨hc, hrest⟩ := List.forall_mem_cons.1 h
    rw [decodeChars, if_pos hc, ih hrest, List.reverse_cons, List.append_assoc,
      List.singleton_append]

theorem decodeUtf8Lossy_encodeUtf8 (text : List Char) :
    decodeUtf8Lossy (encodeUtf8 text) = text := by
  rw [decodeUtf8Lossy, decodeUnits_encodeUtf8, List.map_map]
  exact List.map_id text

/-- The escapes of a path's URI give its octets back, after those of the scheme. -/
theorem decodeOctets_ofPath (path : Path) :
    (∀ c ∈ (ofPath path).toList, isAscii c = true) ∧
      decodeOctets (ofPath path).toList = encodeUtf8 scheme.toList ++ path.text.octets := by
  have hscheme : ∀ rest : List Char,
      decodeOctets (scheme.toList ++ rest) = encodeUtf8 scheme.toList ++ decodeOctets rest :=
    fun _ => rfl
  obtain ⟨hascii, hread⟩ := decodeOctets_encodeOctets path.text.octets
  rw [ofPath, String.toList_append, String.toList_ofList, hscheme, hread]
  exact ⟨List.forall_mem_append.2 ⟨List.all_eq_true.1 (by decide), hascii⟩, rfl⟩

/-- The key of a path's URI is the scheme and what the octets of the path are read as. -/
theorem key_ofPath (path : Path) : key (ofPath path) = scheme ++ String.ofList path.reading := by
  obtain ⟨hascii, hread⟩ := decodeOctets_ofPath path
  have hscheme : encodeUtf8 scheme.toList = encodeUtf8 "file:/".toList ++ [0x2F] := by decide
  have hchars : scheme.toList = "file:/".toList ++ [Char.ofNat 0x2F] := by decide
  have hslash := decodeUtf8Lossy_ascii (b := 0x2F) (by decide) (encodeUtf8 "file:/".toList)
    path.text.octets
  rw [key, decodeChars_of_ascii hascii, List.reverse_nil, List.nil_append, hread, hscheme,
    List.append_assoc, List.singleton_append, hslash, decodeUtf8Lossy_encodeUtf8,
    ← String.ofList_toList (s := scheme), hchars, ← String.ofList_append, List.append_assoc]
  rfl

theorem key_ofPath_eq_iff (path other : Path) :
    key (ofPath path) = key (ofPath other) ↔ path.reading = other.reading := by
  rw [key_ofPath, key_ofPath, String.append_right_inj, String.ofList_inj]

theorem reading_of_text {path : Path} {text : String} (h : path.text = text) :
    path.reading = text.toList := by
  rw [Path.reading, h, LooseText.octets_ofString, utf8, decodeUtf8Lossy_encodeUtf8]

/-- The key of the URI of a path of characters is the scheme and the path. -/
theorem key_ofPath_of_text {path : Path} {text : String} (h : path.text = text) :
    key (ofPath path) = scheme ++ text := by
  rw [key_ofPath, reading_of_text h, String.ofList_toList]

theorem ofPath_eq_iff (path other : Path) :
    ofPath path = ofPath other ↔ path.text.octets = other.text.octets := by
  constructor
  · intro h
    have hoctets := congrArg (fun uri : String => decodeOctets uri.toList) h
    simp only [(decodeOctets_ofPath _).2] at hoctets
    exact List.append_cancel_left hoctets
  · intro h
    rw [ofPath, ofPath, h]

end Uri

end ProjectCheck
