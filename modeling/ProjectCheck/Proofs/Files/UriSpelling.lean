import ProjectCheck.Proofs.Files.Uri

/-!
Spellings of URIs. A character of a path can stand for itself or as escapes of its octets, with
digits of either case, and a percent sign always stands as an escape. However a URI is spelled, its
decoded form is the scheme and the path, so that it names one path only.
-/
namespace ProjectCheck.Uri

open Text

inductive AreEscapes : Bytes → List Char → Prop
  | nil : AreEscapes [] []
  | cons {b : UInt8} {high low : Char} {bytes : Bytes} {text : List Char}
      (hhigh : hexValue? high = some (b.toNat / 16)) (hlow : hexValue? low = some (b.toNat % 16))
      (hrest : AreEscapes bytes text) : AreEscapes (b :: bytes) ('%' :: high :: low :: text)

inductive Spells : List Char → List Char → Prop
  | nil : Spells [] []
  | plain {c : Char} {text written : List Char} (hc : c ≠ '%') (hrest : Spells text written) :
      Spells (c :: text) (c :: written)
  | escaped {c : Char} {escapes text written : List Char}
      (hescapes : AreEscapes (String.utf8EncodeChar c) escapes) (hrest : Spells text written) :
      Spells (c :: text) (escapes ++ written)

def Denotes (uri path : String) : Prop :=
  ∃ written, uri = scheme ++ String.ofList written ∧ Spells path.toList written

theorem isAscii_of_hexValue? {c : Char} {n : Nat} (h : hexValue? c = some n) :
    isAscii c = true := by
  have hle : ∀ d : Char, d.toNat < 0x80 → c ≤ d → isAscii c = true :=
    fun _ hd hcd => decide_eq_true (Nat.lt_of_le_of_lt hcd hd)
  simp only [hexValue?, Bool.and_eq_true, decide_eq_true_eq] at h
  split at h
  · exact hle '9' (by decide) (by simp_all)
  split at h
  · exact hle 'f' (by decide) (by simp_all)
  split at h
  · exact hle 'F' (by decide) (by simp_all)
  · cases h

/-- Escapes are ASCII and are read back, whatever follows them. -/
theorem AreEscapes.decode {bytes : Bytes} {escapes : List Char} (h : AreEscapes bytes escapes) :
    (∀ c ∈ escapes, isAscii c = true) ∧
      ∀ rest, decodeOctets (escapes ++ rest) = bytes ++ decodeOctets rest := by
  induction h with
  | nil => exact ⟨nofun, fun _ => rfl⟩
  | @cons b high low bytes text hhigh hlow _ ih =>
    obtain ⟨hascii, hread⟩ := ih
    refine ⟨?_, fun rest => ?_⟩
    · simp only [List.forall_mem_cons, isAscii_of_hexValue? hhigh, isAscii_of_hexValue? hlow]
      exact ⟨rfl, trivial, trivial, hascii⟩
    · have hnumber : hexNumber? [high, low] = some b.toNat := by
        simp only [hexNumber?, List.foldlM_cons, List.foldlM_nil, hhigh, hlow]
        change some (16 * (16 * 0 + b.toNat / 16) + b.toNat % 16) = some b.toNat
        congr 1
        omega
      simp only [List.cons_append, decodeOctets, hnumber, hread, UInt8.ofNat_toNat]

/-- ASCII characters are added to the run that is decoded as a whole. -/
theorem decodeChars_append {text : List Char} (h : ∀ c ∈ text, isAscii c = true)
    (run rest : List Char) :
    decodeChars run (text ++ rest) = decodeChars (text.reverse ++ run) rest := by
  induction text generalizing run with
  | nil => rfl
  | cons c text ih =>
    obtain ⟨hc, htext⟩ := List.forall_mem_cons.1 h
    rw [List.cons_append, decodeChars, if_pos hc, ih htext, List.reverse_cons, List.append_assoc,
      List.singleton_append]

def Reads (run text : List Char) : Prop :=
  ∀ rest, decodeOctets (run.reverse ++ rest) = encodeUtf8 text ++ decodeOctets rest

theorem Reads.decodeUtf8Lossy {run text : List Char} (h : Reads run text) :
    decodeUtf8Lossy (decodeOctets run.reverse) = text := by
  have hread := h []
  rw [List.append_nil, decodeOctets, List.append_nil] at hread
  rw [hread, decodeUtf8Lossy_encodeUtf8]

/-- More characters that decode to one character are read together with the run before them. -/
theorem Reads.append {run text escapes : List Char} {c : Char} (h : Reads run text)
    (hread : ∀ rest, decodeOctets (escapes ++ rest) =
      String.utf8EncodeChar c ++ decodeOctets rest) :
    Reads (escapes.reverse ++ run) (text ++ [c]) := by
  intro rest
  have hmore : encodeUtf8 (text ++ [c]) = encodeUtf8 text ++ String.utf8EncodeChar c := by
    rw [encodeUtf8, List.flatMap_append, List.flatMap_singleton]
    rfl
  rw [List.reverse_append, List.reverse_reverse, List.append_assoc, h, hread, hmore,
    List.append_assoc]

theorem decodeOctets_plain {c : Char} (hc : c ≠ '%') (hascii : isAscii c = true)
    (rest : List Char) :
    decodeOctets (c :: rest) = String.utf8EncodeChar c ++ decodeOctets rest := by
  have hle : c.val.toNat ≤ 0x7F := Nat.le_of_lt_succ (of_decide_eq_true hascii)
  rw [String.utf8EncodeChar]
  simp only [if_pos hle, List.singleton_append]
  rw [decodeOctets]
  · rfl
  · exact fun _ _ _ heq => absurd heq hc

/-- A spelled text is decoded to the text, after what was read before it. -/
theorem Spells.decodeChars {text written : List Char} (h : Spells text written)
    {run known : List Char} (hrun : Reads run known) : decodeChars run written = known ++ text := by
  induction h generalizing run known with
  | nil => rw [Uri.decodeChars, hrun.decodeUtf8Lossy, List.append_nil]
  | @plain c text written hc _ ih =>
    by_cases hascii : isAscii c = true
    · have hmore : Reads ([c].reverse ++ run) (known ++ [c]) :=
        hrun.append (decodeOctets_plain hc hascii)
      change Reads (c :: run) (known ++ [c]) at hmore
      rw [Uri.decodeChars, if_pos hascii, ih hmore, List.append_assoc, List.singleton_append]
    · have hstart : Reads [] [] := fun _ => rfl
      rw [Uri.decodeChars, if_neg hascii, hrun.decodeUtf8Lossy, ih hstart, List.nil_append]
  | @escaped c escapes text written hescapes _ ih =>
    obtain ⟨hascii, hread⟩ := hescapes.decode
    rw [decodeChars_append hascii, ih (hrun.append hread), List.append_assoc,
      List.singleton_append]

theorem spells_self {text : List Char} (h : '%' ∉ text) : Spells text text := by
  induction text with
  | nil => exact .nil
  | cons c rest ih =>
    rw [List.mem_cons, not_or] at h
    exact .plain (Ne.symm h.1) (ih h.2)

theorem Spells.append {text written more spelled : List Char} (h : Spells text written)
    (hmore : Spells more spelled) : Spells (text ++ more) (written ++ spelled) := by
  induction h with
  | nil => exact hmore
  | plain hc _ ih => exact .plain hc ih
  | escaped hescapes _ ih =>
    rw [List.append_assoc]
    exact .escaped hescapes ih

/-- The decoded form of a URI that denotes a path is the scheme and the path. -/
theorem Denotes.key_eq {uri path : String} (h : Denotes uri path) : key uri = scheme ++ path := by
  obtain ⟨written, rfl, hspells⟩ := h
  have hscheme : Spells scheme.toList scheme.toList := spells_self (by decide)
  have hstart : Reads [] [] := fun _ => rfl
  rw [key, String.toList_append, String.toList_ofList, (hscheme.append hspells).decodeChars hstart,
    List.nil_append, ← String.toList_append, String.ofList_toList]

end ProjectCheck.Uri
