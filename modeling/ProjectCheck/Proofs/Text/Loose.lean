import ProjectCheck.Json.Writer
import ProjectCheck.Proofs.Text.Utf8

/-!
Loose texts. They are told apart by the numbers of their codes and are in the order of them. A text
of characters is the same text again among the loose ones, with the same octets.
-/
namespace ProjectCheck

open Text

namespace Code

theorem toNat_inj {a b : Code} : a.toNat = b.toNat ↔ a = b := by
  refine ⟨fun h => ?_, congrArg toNat⟩
  cases a with
  | char c =>
    cases b with
    | char d => exact congrArg char (Char.toNat_inj.1 h)
    | lone n =>
      have hvalid : c.toNat.isValidChar := c.valid
      have hsame : c.toNat = 0xD800 + n := h
      simp only [Nat.isValidChar] at hvalid
      omega
  | lone m =>
    cases b with
    | char d =>
      have hvalid : d.toNat.isValidChar := d.valid
      have hsame : 0xD800 + m.val = d.toNat := h
      simp only [Nat.isValidChar] at hvalid
      omega
    | lone n => exact congrArg lone (Fin.ext (Nat.add_left_cancel h))

@[simp]
theorem ofNat_toNat (code : Code) : ofNat code.toNat = code := by
  cases code with
  | char c =>
    have hvalid : c.toNat.isValidChar := c.valid
    rw [ofNat, dif_pos (show (char c).toNat.isValidChar from hvalid)]
    rfl
  | lone n =>
    have hinvalid : ¬ (0xD800 + n.val).isValidChar := by
      simp only [Nat.isValidChar]
      omega
    rw [ofNat, dif_neg (show ¬ (lone n).toNat.isValidChar from hinvalid)]
    refine congrArg lone (Fin.ext ?_)
    change (0xD800 + n.val - 0xD800) % 0x800 = n.val
    rw [Nat.add_sub_cancel_left, Nat.mod_eq_of_lt n.isLt]

/-! The order of codes is that of their numbers. -/

instance : LE Code := ⟨fun a b => a.toNat ≤ b.toNat⟩

instance : Std.IsLinearOrder Code where
  le_refl a := Nat.le_refl a.toNat
  le_trans _ _ _ := Nat.le_trans
  le_antisymm _ _ hle hge := toNat_inj.1 (Nat.le_antisymm hle hge)
  le_total a b := Nat.le_total a.toNat b.toNat

instance : Std.LawfulOrderLT Code where
  lt_iff _ _ := Nat.lt_iff_le_and_not_ge

end Code

theorem Text.toString_string (s : String) : toString s = s := rfl

namespace LooseText

theorem ne_of_lt {a b : LooseText} (h : a < b) : a ≠ b := fun heq => List.lt_irrefl b (heq ▸ h)

/-! Texts of characters. -/

@[simp]
theorem ofString_inj {s t : String} : ofString s = ofString t ↔ s = t := by
  refine ⟨fun h => String.toList_inj.1 ?_, congrArg ofString⟩
  exact (List.map_inj_right fun _ _ heq => Code.char.inj heq).1 h

@[simp]
theorem ofString_append (s t : String) : ofString (s ++ t) = ofString s ++ ofString t := by
  rw [ofString, String.toList_append, List.map_append]
  rfl

@[simp]
theorem ofString_eq_nil {s : String} : ofString s = [] ↔ s = "" := by
  rw [ofString, List.map_eq_nil_iff, String.toList_eq_nil_iff]

@[simp]
theorem string?_ofString (s : String) : (ofString s).string? = some s := by
  have hchars : ∀ chars : List Char, (chars.map Code.char).mapM Code.char? = some chars := by
    intro chars
    induction chars with
    | nil => rfl
    | cons c rest ih => rw [List.map_cons, List.mapM_cons, ih]; rfl
  rw [string?, ofString, hchars, Option.map_some, String.ofList_toList]

theorem string?_eq_some_iff {text : LooseText} {s : String} :
    text.string? = some s ↔ text = ofString s := by
  refine ⟨fun h => ?_, fun h => h ▸ string?_ofString s⟩
  obtain ⟨chars, hchars, rfl⟩ := Option.map_eq_some_iff.1 h
  rw [ofString, String.toList_ofList]
  clear h
  induction text generalizing chars with
  | nil => cases hchars; rfl
  | cons code rest ih =>
    cases code with
    | char c =>
      rw [List.mapM_cons] at hchars
      obtain ⟨_, ⟨⟩, hrest⟩ := Option.bind_eq_some_iff.1 hchars
      obtain ⟨more, hmore, ⟨⟩⟩ := Option.bind_eq_some_iff.1 hrest
      rw [List.map_cons, ← ih more hmore]
    | lone n => cases hchars

/-! Texts as they are shown. -/

@[simp]
theorem toString_ofString (s : String) : toString (ofString s) = s := by
  change String.ofList ((s.toList.map Code.char).flatMap _) = s
  rw [List.flatMap_map]
  change String.ofList (s.toList.flatMap fun c => [c]) = s
  rw [List.flatMap_singleton', String.ofList_toList]

theorem toString_append (text more : LooseText) :
    toString (text ++ more) = toString text ++ toString more := by
  change String.ofList ((text ++ more).flatMap _) = _
  rw [List.flatMap_append, String.ofList_append]
  rfl

def shown (text : LooseText) : List Char := (toString text).toList

theorem toList_toString (text : LooseText) : (toString text).toList = text.shown := rfl

@[simp]
theorem shown_ofString (s : String) : (ofString s).shown = s.toList := by
  rw [shown, toString_ofString]

@[simp]
theorem shown_append (text more : LooseText) : (text ++ more).shown = text.shown ++ more.shown := by
  rw [shown, toString_append, String.toList_append]
  rfl

@[simp]
theorem shown_nil : shown [] = [] := rfl

@[simp]
theorem shown_char_cons (c : Char) (text : LooseText) :
    shown (.char c :: text) = c :: text.shown := by
  have hc : shown [.char c] = [c] := String.toList_ofList
  rw [← List.singleton_append, shown_append, hc, List.singleton_append]

def IsPlain (text : LooseText) : Prop := ofString (String.ofList text.shown) = text

instance (text : LooseText) : Decidable text.IsPlain := inferInstanceAs (Decidable (_ = _))

theorem isPlain_ofString (s : String) : IsPlain s := by
  rw [IsPlain, shown_ofString, String.ofList_toList]

theorem isPlain_iff_exists {text : LooseText} : text.IsPlain ↔ ∃ s : String, text = s := by
  constructor
  · exact fun h => ⟨_, h.symm⟩
  · rintro ⟨s, rfl⟩
    exact isPlain_ofString s

theorem IsPlain.append {text more : LooseText} (h : text.IsPlain) (hmore : more.IsPlain) :
    (text ++ more).IsPlain := by
  rw [IsPlain, shown_append, String.ofList_append, ofString_append, h, hmore]

theorem IsPlain.char_cons {text : LooseText} (h : text.IsPlain) (c : Char) :
    IsPlain (.char c :: text) := by
  have hc : ofString (String.ofList [c]) = [.char c] := by
    rw [ofString, String.toList_ofList, List.map_singleton]
  rw [← List.singleton_append, ← hc]
  exact (isPlain_ofString _).append h

theorem IsPlain.of_forall_mem {text : LooseText} (h : ∀ code ∈ text, ∃ c, code = .char c) :
    text.IsPlain := by
  induction text with
  | nil => exact isPlain_ofString ""
  | cons code rest ih =>
    obtain ⟨⟨c, rfl⟩, hrest⟩ := List.forall_mem_cons.1 h
    exact (ih hrest).char_cons c

/-! Octets. -/

theorem octets_append (text more : LooseText) :
    (text ++ more).octets = text.octets ++ more.octets := List.flatMap_append

@[simp]
theorem octets_ofString (s : String) : (ofString s).octets = utf8 s := by
  rw [octets, ofString, List.flatMap_map]
  rfl

@[simp]
theorem isEncodable_ofString (s : String) : (ofString s).isEncodable = true := by
  rw [isEncodable, ofString, List.all_map, List.all_eq_true]
  exact fun _ _ => rfl

/-! Strings of JSON. -/

@[simp]
theorem ofCodes_codes (text : LooseText) : ofCodes text.codes = text := by
  rw [ofCodes, codes, List.map_map]
  exact List.map_id'' Code.ofNat_toNat text

end LooseText

namespace Json

@[simp]
theorem ofText_ofString (s : String) : ofText (LooseText.ofString s) = string s := by
  rw [ofText, LooseText.string?_ofString]

/-- Every text is read back from the string that is it. -/
@[simp]
theorem asText?_ofText (text : LooseText) : (ofText text).asText? = some text := by
  rw [ofText]
  cases h : text.string? with
  | none => exact congrArg some text.ofCodes_codes
  | some s => exact congrArg some (LooseText.string?_eq_some_iff.1 h).symm

@[simp]
theorem toText_ofText (text : LooseText) : (ofText text).toText = ofText text := by
  rw [toText, plain, asText?_ofText, Option.getD_some]

/-- Just the texts of characters can be written. -/
theorem isWellFormed_ofText {text : LooseText} :
    (ofText text).isWellFormed = true ↔ text.IsPlain := by
  simp only [LooseText.isPlain_iff_exists, ← LooseText.string?_eq_some_iff]
  rw [ofText]
  cases text.string? with
  | none => simp [isWellFormed]
  | some s => simp [isWellFormed]

theorem isTruthy_ofText (text : LooseText) : (ofText text).isTruthy = true ↔ text ≠ [] := by
  rw [ofText]
  cases h : text.string? with
  | none => simp [isTruthy, LooseText.codes]
  | some s => simp [isTruthy, LooseText.string?_eq_some_iff.1 h]

end Json

end ProjectCheck
