import ProjectCheck.Text.Utf8

/-!
What UTF-8 writes is read back. A character is one, two, three or four octets, and the decoder,
which takes one octet at a time, gives exactly that character and goes on after the last of them.
-/
namespace ProjectCheck.Text

private theorem toNat_octet {n : Nat} (h : n < 256) : (UInt8.ofNat n).toNat = n := by
  rw [UInt8.toNat_ofNat', Nat.mod_eq_of_lt (by omega)]

/-- The last octet of a character ends it. -/
theorem decodeUnits_last {bits low high added : Nat} (rest : Bytes) (hadded : added < 64)
    (hlow : low ≤ added + 0x80) (hhigh : added + 0x80 ≤ high) :
    decodeUnits (some ⟨bits, 1, low, high⟩) (UInt8.ofNat (added + 0x80) :: rest) =
      some (Char.ofNat (bits * 64 + added)) :: decodeUnits none rest := by
  have hoctet : (UInt8.ofNat (added + 0x80)).toNat = added + 0x80 := toNat_octet (by omega)
  simp only [decodeUnits, hoctet, Nat.add_sub_cancel]
  rw [if_pos ⟨hlow, hhigh⟩, if_pos trivial]

/-- Any octet before the last adds its six bits. -/
theorem decodeUnits_more {bits missing low high added : Nat} (rest : Bytes)
    (hadded : added < 64) (hlow : low ≤ added + 0x80) (hhigh : added + 0x80 ≤ high) :
    decodeUnits (some ⟨bits, missing + 2, low, high⟩) (UInt8.ofNat (added + 0x80) :: rest) =
      decodeUnits (some ⟨bits * 64 + added, missing + 1, 0x80, 0xBF⟩) rest := by
  have hoctet : (UInt8.ofNat (added + 0x80)).toNat = added + 0x80 := toNat_octet (by omega)
  simp only [decodeUnits, hoctet, Nat.add_sub_cancel]
  rw [if_pos ⟨hlow, hhigh⟩, if_neg (by omega)]
  rfl

theorem decodeUnits_starts {n : Nat} {u : Unfinished} (rest : Bytes)
    (h : firstOctet (UInt8.ofNat n) = .starts u) :
    decodeUnits none (UInt8.ofNat n :: rest) = decodeUnits (some u) rest := by
  rw [decodeUnits, h]

theorem firstOctet_of_two {n : Nat} (hlow : 0x80 ≤ n) (hhigh : n ≤ 0x7FF) :
    firstOctet (UInt8.ofNat (n / 64 % 32 + 0xC0)) = .starts ⟨n / 64, 1, 0x80, 0xBF⟩ := by
  have hmod : n / 64 % 32 = n / 64 := Nat.mod_eq_of_lt (by omega)
  have hoctet : (UInt8.ofNat (n / 64 + 0xC0)).toNat = n / 64 + 0xC0 := toNat_octet (by omega)
  simp only [firstOctet, hmod, hoctet]
  rw [if_neg (by omega), if_neg (by omega), if_pos (by omega), Nat.add_sub_cancel]

/-- The range of the second octet of three shuts out overlong forms and surrogates. -/
theorem firstOctet_of_three {n : Nat} (hlow : 0x800 ≤ n) (hhigh : n ≤ 0xFFFF)
    (hvalid : n.isValidChar) :
    ∃ low high, firstOctet (UInt8.ofNat (n / 4096 % 16 + 0xE0)) =
        .starts ⟨n / 4096, 2, low, high⟩ ∧
      low ≤ n / 64 % 64 + 0x80 ∧ n / 64 % 64 + 0x80 ≤ high := by
  have hmod : n / 4096 % 16 = n / 4096 := Nat.mod_eq_of_lt (by omega)
  have hoctet : (UInt8.ofNat (n / 4096 + 0xE0)).toNat = n / 4096 + 0xE0 :=
    toNat_octet (by omega)
  have hsurrogate : n < 0xD800 ∨ 0xDFFF < n := by
    rcases hvalid with h | h <;> omega
  simp only [firstOctet, hmod, hoctet]
  rw [if_neg (by omega), if_neg (by omega), if_neg (by omega)]
  by_cases hfirst : n / 4096 = 0
  · refine ⟨0xA0, 0xBF, ?_, by omega, by omega⟩
    rw [if_pos (by omega), hfirst]
  · by_cases hlast : n / 4096 = 13
    · refine ⟨0x80, 0x9F, ?_, by omega, by omega⟩
      rw [if_neg (by omega), if_pos (by omega), hlast]
    · refine ⟨0x80, 0xBF, ?_, by omega, by omega⟩
      rw [if_neg (by omega), if_neg (by omega), if_pos (by omega), Nat.add_sub_cancel]

/-- The range of the second octet of four shuts out overlong forms and codes beyond the last. -/
theorem firstOctet_of_four {n : Nat} (hlow : 0x10000 ≤ n) (hhigh : n < 0x110000) :
    ∃ low high, firstOctet (UInt8.ofNat (n / 262144 % 8 + 0xF0)) =
        .starts ⟨n / 262144, 3, low, high⟩ ∧
      low ≤ n / 4096 % 64 + 0x80 ∧ n / 4096 % 64 + 0x80 ≤ high := by
  have hmod : n / 262144 % 8 = n / 262144 := Nat.mod_eq_of_lt (by omega)
  have hoctet : (UInt8.ofNat (n / 262144 + 0xF0)).toNat = n / 262144 + 0xF0 :=
    toNat_octet (by omega)
  simp only [firstOctet, hmod, hoctet]
  rw [if_neg (by omega), if_neg (by omega), if_neg (by omega), if_neg (by omega),
    if_neg (by omega), if_neg (by omega)]
  by_cases hfirst : n / 262144 = 0
  · refine ⟨0x90, 0xBF, ?_, by omega, by omega⟩
    rw [if_pos (by omega), hfirst]
  · by_cases hlast : n / 262144 = 4
    · refine ⟨0x80, 0x8F, ?_, by omega, by omega⟩
      rw [if_neg (by omega), if_neg (by omega), if_pos (by omega), hlast]
    · refine ⟨0x80, 0xBF, ?_, by omega, by omega⟩
      rw [if_neg (by omega), if_pos (by omega), Nat.add_sub_cancel]

/-- The octets of a character decode to it, whatever follows them. -/
theorem decodeUnits_encodeChar (c : Char) (rest : Bytes) :
    decodeUnits none (String.utf8EncodeChar c ++ rest) = some c :: decodeUnits none rest := by
  have hc : ∀ {n : Nat}, n = c.val.toNat → Char.ofNat n = c := by
    intro n hn
    rw [hn]
    exact Char.ofNat_toNat c
  have hvalid : c.val.toNat.isValidChar := c.valid
  have hbound : c.val.toNat < 0x110000 := by
    rcases hvalid with h | h <;> omega
  simp only [String.utf8EncodeChar]
  generalize c.val.toNat = n at *
  by_cases h1 : n ≤ 0x7F
  · have hoctet : (UInt8.ofNat n).toNat = n := toNat_octet (by omega)
    simp only [if_pos h1, List.cons_append, List.nil_append, decodeUnits, firstOctet, hoctet]
    simp only [if_pos (show n < 0x80 by omega), hc rfl]
  · by_cases h2 : n ≤ 0x7FF
    · simp only [if_neg h1, if_pos h2, List.cons_append, List.nil_append]
      rw [decodeUnits_starts _ (firstOctet_of_two (by omega) h2),
        decodeUnits_last _ (by omega) (by omega) (by omega), hc (by omega)]
    · by_cases h3 : n ≤ 0xFFFF
      · obtain ⟨low, high, hfirst, hlow, hhigh⟩ := firstOctet_of_three (by omega) h3 hvalid
        simp only [if_neg h1, if_neg h2, if_pos h3, List.cons_append, List.nil_append]
        rw [decodeUnits_starts _ hfirst, decodeUnits_more _ (by omega) hlow hhigh,
          decodeUnits_last _ (by omega) (by omega) (by omega), hc (by omega)]
      · obtain ⟨low, high, hfirst, hlow, hhigh⟩ := firstOctet_of_four (by omega) hbound
        simp only [if_neg h1, if_neg h2, if_neg h3, List.cons_append, List.nil_append]
        rw [decodeUnits_starts _ hfirst, decodeUnits_more _ (by omega) hlow hhigh,
          decodeUnits_more _ (by omega) (by omega) (by omega),
          decodeUnits_last _ (by omega) (by omega) (by omega), hc (by omega)]

theorem decodeUnits_encodeUtf8 (s : List Char) : decodeUnits none (encodeUtf8 s) = s.map some := by
  induction s with
  | nil => rfl
  | cons c rest ih =>
    have hcons : encodeUtf8 (c :: rest) = String.utf8EncodeChar c ++ encodeUtf8 rest :=
      List.flatMap_cons
    rw [hcons, decodeUnits_encodeChar, ih, List.map_cons]

/-- Every text is read back from its octets. -/
theorem decodeUtf8?_encodeUtf8 (s : List Char) : decodeUtf8? (encodeUtf8 s) = some s := by
  rw [decodeUtf8?, decodeUnits_encodeUtf8]
  induction s with
  | nil => rfl
  | cons c rest ih => simp_all [List.mapM_cons]

/-! An octet below 128 is a character of its own, wherever it stands. -/

theorem firstOctet_of_ascii {b : UInt8} (hb : b.toNat < 0x80) : firstOctet b = .whole b.toNat :=
  if_pos hb

/-- An unfinished character goes on with octets above those of ASCII. -/
theorem low_of_firstOctet {b : UInt8} {u : Unfinished} (h : firstOctet b = .starts u) :
    0x80 ≤ u.low := by
  simp only [firstOctet] at h
  repeat' split at h
  all_goals simp only [reduceCtorEq, FirstOctet.starts.injEq] at h
  all_goals simp [← h]

/-- An octet that does not go on with an unfinished character is read on its own. -/
theorem decodeUnits_outside {u : Unfinished} {octet : UInt8} (rest : Bytes)
    (houtside : ¬ (u.low ≤ octet.toNat ∧ octet.toNat ≤ u.high)) :
    decodeUnits (some u) (octet :: rest) = none :: decodeUnits none (octet :: rest) := by
  simp only [decodeUnits, if_neg houtside]

/-- Octets are read apart where one of them is ASCII. -/
theorem decodeUnits_ascii {b : UInt8} (hb : b.toNat < 0x80) (before after : Bytes)
    (unfinished : Option Unfinished) (hlow : ∀ u, unfinished = some u → 0x80 ≤ u.low) :
    decodeUnits unfinished (before ++ b :: after) =
      decodeUnits unfinished before ++ some (Char.ofNat b.toNat) :: decodeUnits none after := by
  have hfirst := firstOctet_of_ascii hb
  have hstarts : ∀ {octet : UInt8} {u : Unfinished}, firstOctet octet = .starts u →
      ∀ v, some u = some v → 0x80 ≤ v.low := by
    intro octet u hoctet v hv
    exact Option.some.inj hv ▸ low_of_firstOctet hoctet
  induction before generalizing unfinished with
  | nil =>
    cases unfinished with
    | none => simp only [List.nil_append, decodeUnits, hfirst]
    | some u =>
      have houtside : ¬ (u.low ≤ b.toNat ∧ b.toNat ≤ u.high) := by
        have := hlow u rfl
        omega
      rw [List.nil_append, decodeUnits_outside after houtside]
      simp only [decodeUnits, hfirst, List.singleton_append]
  | cons octet rest ih =>
    have hwhole := ih none nofun
    have hnext : decodeUnits none (octet :: (rest ++ b :: after)) =
        decodeUnits none (octet :: rest) ++
          some (Char.ofNat b.toNat) :: decodeUnits none after := by
      rw [decodeUnits, decodeUnits]
      cases hoctet : firstOctet octet with
      | whole n => simp only [hwhole, List.cons_append]
      | starts v => simp only [ih _ (hstarts hoctet)]
      | invalid => simp only [hwhole, List.cons_append]
    cases unfinished with
    | none => exact hnext
    | some u =>
      rw [List.cons_append]
      by_cases hinside : u.low ≤ octet.toNat ∧ octet.toNat ≤ u.high
      · simp only [decodeUnits, if_pos hinside]
        split
        · rw [hwhole, List.cons_append]
        · exact ih _ fun v hv => Option.some.inj hv ▸ Nat.le_refl _
      · rw [decodeUnits_outside _ hinside, decodeUnits_outside _ hinside, hnext, List.cons_append]

theorem decodeUtf8Lossy_ascii {b : UInt8} (hb : b.toNat < 0x80) (before after : Bytes) :
    decodeUtf8Lossy (before ++ b :: after) =
      decodeUtf8Lossy before ++ Char.ofNat b.toNat :: decodeUtf8Lossy after := by
  rw [decodeUtf8Lossy, decodeUnits_ascii hb before after none nofun, List.map_append, List.map_cons]
  rfl

end ProjectCheck.Text
