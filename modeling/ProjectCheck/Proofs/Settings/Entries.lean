import ProjectCheck.Proofs.Text.LetterCase
import ProjectCheck.Proofs.Validation
import ProjectCheck.Server.Spec

/-!
Entries that users give for servers. The extensions of an entry are kept in lower case and with a
dot, and an entry that was accepted is accepted again as it is.
-/
namespace ProjectCheck

open Text

/-! Extensions as they are kept. -/

def IsKept (extension : LooseText) : Prop := extension ≠ [] ∧ lower extension = extension

theorem head_lower_dot {extension : LooseText} (h : extension.head? = some (.char '.')) :
    (lower extension).head? = some (.char '.') := by
  obtain ⟨rest, rfl⟩ := List.head?_eq_some_iff.1 h
  rw [lower, lowerFrom, lowerChar_eq_self ⟨by decide, by decide⟩]
  rfl

namespace ServerOverride

/-- An extension that a user gave is kept in lower case and with a dot. -/
theorem isKept_normalizeExtension (extension : LooseText) :
    IsKept (normalizeExtension extension) := by
  rw [normalizeExtension]
  split
  · rename_i hdot
    refine ⟨fun hempty => ?_, lower_lower extension⟩
    have hhead := head_lower_dot hdot
    rw [hempty] at hhead
    cases hhead
  · refine ⟨List.cons_ne_nil _ _, lower_eq_self_iff.2 (List.forall_mem_cons.2 ⟨?_, ?_⟩)⟩
    · exact ⟨by decide, by decide⟩
    · exact lower_eq_self_iff.1 (lower_lower extension)

/-- It starts with a dot, whether it was given with one or not. -/
theorem head_normalizeExtension (extension : LooseText) :
    (normalizeExtension extension).head? = some (.char '.') := by
  rw [normalizeExtension]
  split
  · exact head_lower_dot ‹_›
  · rfl

/-- An extension that starts with a dot and is in lower case stays as it is. -/
theorem normalizeExtension_eq_self {extension : LooseText}
    (hdot : extension.head? = some (.char '.')) (hlower : lower extension = extension) :
    normalizeExtension extension = extension := by
  rw [normalizeExtension, if_pos hdot, hlower]

def IsAccepted (entry : ServerOverride) : Prop := ∃ fields, ofFields fields = .valid entry

theorem IsAccepted.normalized {entry : ServerOverride} (h : entry.IsAccepted) :
    ∀ extension ∈ entry.extensions, ∃ given, normalizeExtension given = extension := by
  obtain ⟨fields, hfields⟩ := h
  obtain ⟨_, _, hhint, -, rfl⟩ := Checked.ap_eq_valid hfields
  obtain ⟨_, _, hextensions, -, rfl⟩ := Checked.ap_eq_valid hhint
  obtain ⟨_, _, hargs, hgiven, rfl⟩ := Checked.ap_eq_valid hextensions
  obtain ⟨_, _, hcommand, -, rfl⟩ := Checked.ap_eq_valid hargs
  obtain ⟨_, _, hname, -, rfl⟩ := Checked.ap_eq_valid hcommand
  obtain ⟨_, -, rfl⟩ := Checked.map_eq_valid hname
  obtain ⟨given, -, rfl⟩ := Checked.map_eq_valid hgiven
  intro extension hmem
  obtain ⟨original, -, heq⟩ := List.mem_map.1 hmem
  exact ⟨original, heq⟩

theorem IsAccepted.isKept {entry : ServerOverride} (h : entry.IsAccepted) :
    ∀ extension ∈ entry.extensions, IsKept extension := by
  intro extension hmem
  obtain ⟨given, rfl⟩ := h.normalized extension hmem
  exact isKept_normalizeExtension given

def fields (entry : ServerOverride) : Members Json := [
  ("name", .ofText entry.name), ("command", .ofText entry.command),
  ("args", .array (entry.args.map .ofText)),
  ("extensions", .array (entry.extensions.map .ofText)),
  ("install_hint", .ofText entry.installHint), ("enabled", .bool entry.enabled)]

/-- An entry that was accepted is accepted again as it is. -/
theorem IsAccepted.ofFields_fields {entry : ServerOverride} (h : entry.IsAccepted) :
    ofFields entry.fields = .valid entry := by
  have hstrings : ∀ texts : List LooseText,
      Check.list .string (.array (texts.map .ofText)) = .valid texts :=
    fun texts => Check.items_map 0 fun text _ => Check.string_ofText text
  have hname : entry.fields.required "name" .string = .valid entry.name := by
    rw [Members.required]
    exact Checked.within_eq_valid_iff.2 (Check.string_ofText _)
  have hcommand : entry.fields.withDefault "command" .string [] = .valid entry.command :=
    Members.withDefault_eq_valid_iff.2 (Check.string_ofText _)
  have hargs : entry.fields.withDefault "args" (.list .string) [] = .valid entry.args :=
    Members.withDefault_eq_valid_iff.2 (hstrings _)
  have hextensions : entry.fields.withDefault "extensions" (.list .string) [] =
      .valid entry.extensions := Members.withDefault_eq_valid_iff.2 (hstrings _)
  have hhint : entry.fields.withDefault "install_hint" .string [] = .valid entry.installHint :=
    Members.withDefault_eq_valid_iff.2 (Check.string_ofText _)
  have henabled : entry.fields.withDefault "enabled" .bool true = .valid entry.enabled := rfl
  have hnormal : entry.extensions.map normalizeExtension = entry.extensions := by
    refine (List.map_congr_left fun extension hmem => ?_).trans (List.map_id _)
    obtain ⟨given, rfl⟩ := h.normalized extension hmem
    exact normalizeExtension_eq_self (head_normalizeExtension given)
      (isKept_normalizeExtension given).2
  rw [ofFields, hname, hcommand, hargs, hextensions, hhint, henabled]
  simp only [Checked.map, Checked.ap, hnormal]

theorem hasReason_ofFields (fields : Members Json) : (ofFields fields).HasReason :=
  ((((((Members.hasReason_required Check.hasReason_string _).map _).ap
    (Members.hasReason_withDefault Check.hasReason_string _ _)).ap
    (Members.hasReason_withDefault (Check.hasReason_list Check.hasReason_string) _ _)).ap
    ((Members.hasReason_withDefault (Check.hasReason_list Check.hasReason_string) _ _).map _)).ap
    (Members.hasReason_withDefault Check.hasReason_string _ _)).ap
    (Members.hasReason_withDefault Check.hasReason_bool _ _)

end ServerOverride

end ProjectCheck
