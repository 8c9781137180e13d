import ProjectCheck.Diagnostic
import ProjectCheck.Proofs.Text.Loose

/-!
Checks of records. What is refused is refused for a fault, and the faults of a record are those of
its fields, in the order of the fields, each with the name of its field in front. A list is accepted
as it is when its items are. What a diagnostic consists of makes the same diagnostic again.
-/
namespace ProjectCheck

namespace Checked

variable {α β : Type} {checked : Checked α}

def faults : Checked α → List Issue
  | valid _ => []
  | invalid issues => issues

@[simp] theorem faults_map (f : α → β) (checked : Checked α) :
    (checked.map f).faults = checked.faults := by
  cases checked <;> rfl

@[simp] theorem faults_ap (function : Checked (α → β)) (checked : Checked α) :
    (function.ap checked).faults = function.faults ++ checked.faults := by
  cases function <;> cases checked <;> simp [ap, faults]

@[simp] theorem faults_within (step : Step) (checked : Checked α) :
    (checked.within step).faults =
      checked.faults.map fun issue => { issue with location := step :: issue.location } := by
  cases checked <;> rfl

def HasReason (checked : Checked α) : Prop := ∀ issues, checked = .invalid issues → issues ≠ []

theorem HasReason.eq_invalid_iff (h : checked.HasReason) {issues : List Issue} :
    checked = .invalid issues ↔ issues ≠ [] ∧ issues = checked.faults := by
  constructor
  · rintro rfl
    exact ⟨h issues rfl, rfl⟩
  · rintro ⟨hne, rfl⟩
    cases checked with
    | valid a => exact absurd rfl hne
    | invalid issues => rfl

@[simp] theorem hasReason_valid (a : α) : (valid a).HasReason := nofun

@[simp] theorem hasReason_fail (kind : IssueKind) : (fail kind : Checked α).HasReason := by
  rintro _ ⟨⟩
  exact List.cons_ne_nil _ _

theorem HasReason.map (h : checked.HasReason) (f : α → β) : (checked.map f).HasReason := by
  cases checked with
  | valid a => exact hasReason_valid _
  | invalid issues =>
    rintro _ ⟨⟩
    exact h issues rfl

theorem HasReason.ap {function : Checked (α → β)} (hfunction : function.HasReason)
    (h : checked.HasReason) : (function.ap checked).HasReason := by
  intro issues heq
  have hfaults : issues = function.faults ++ checked.faults := by
    rw [← faults_ap, heq]
    rfl
  cases function with
  | valid f =>
    cases checked with
    | valid a => cases heq
    | invalid more =>
      rw [hfaults]
      exact h more rfl
  | invalid first =>
    rw [hfaults]
    exact List.append_ne_nil_of_left_ne_nil (hfunction first rfl) _

theorem HasReason.andThen (h : checked.HasReason) {next : α → Checked β}
    (hnext : ∀ a, (next a).HasReason) : (checked.andThen next).HasReason := by
  cases checked with
  | valid a => exact hnext a
  | invalid issues =>
    rintro _ ⟨⟩
    exact h issues rfl

theorem HasReason.within (h : checked.HasReason) (step : Step) :
    (checked.within step).HasReason := by
  cases checked with
  | valid a => exact hasReason_valid a
  | invalid issues =>
    rintro _ ⟨⟩ hnil
    exact h issues rfl (List.map_eq_nil_iff.1 hnil)

theorem hasReason_require (kind : IssueKind) (test : α → Bool) (a : α) :
    (require kind test a).HasReason := by
  rw [require]
  split
  · exact hasReason_valid a
  · exact hasReason_fail kind

@[simp] theorem within_eq_valid_iff {step : Step} {a : α} :
    checked.within step = .valid a ↔ checked = .valid a := by
  cases checked <;> simp [Checked.within]

end Checked

namespace Check

open Checked

variable {α : Type} {check : Check α}

theorem hasReason_string (value : Json) : (string value).HasReason := by
  rw [string]
  split
  · exact hasReason_valid _
  · exact hasReason_fail _

theorem hasReason_wholeNumber (s : String) : (wholeNumber s).HasReason := by
  unfold wholeNumber
  split <;> simp

theorem hasReason_int (value : Json) : (int value).HasReason := by
  cases value with
  | float x =>
    rw [int]
    split
    · exact hasReason_fail _
    · split
      · exact hasReason_fail _
      · split <;> simp
  | string s => exact hasReason_wholeNumber s
  | _ => simp [int]

theorem hasReason_count (value : Json) : (count value).HasReason := by
  refine (hasReason_int value).andThen fun i => ?_
  split <;> simp

theorem hasReason_truthOf (i : Int) : (truthOf i).HasReason := by
  unfold truthOf
  split
  · exact hasReason_valid _
  · split <;> simp

theorem hasReason_bool (value : Json) : (bool value).HasReason := by
  cases value with
  | int i =>
    rw [bool]
    split
    · exact hasReason_truthOf i
    · exact hasReason_fail _
  | float x =>
    rw [bool]
    split
    · exact hasReason_truthOf _
    · exact hasReason_fail _
  | string s =>
    rw [bool]
    split <;> simp
  | _ => simp [bool]

theorem hasReason_number (s : String) : (number s).HasReason := by
  unfold number
  split
  · exact hasReason_valid _
  · split <;> simp

theorem hasReason_ofWhole (i : Int) : (ofWhole i).HasReason := by
  unfold ofWhole
  split <;> simp

theorem hasReason_float (value : Json) : (float value).HasReason := by
  cases value with
  | int i => exact hasReason_ofWhole i
  | bool b => exact hasReason_ofWhole _
  | string s => exact hasReason_number s
  | _ => simp [float]

theorem hasReason_items (hcheck : ∀ value, (check value).HasReason) (index : Nat)
    (values : List Json) : (Checked.items check index values).HasReason := by
  induction values generalizing index with
  | nil => exact hasReason_valid []
  | cons value rest ih => exact (((hcheck value).within _).map _).ap (ih (index + 1))

theorem hasReason_list (hcheck : ∀ value, (check value).HasReason) (value : Json) :
    (list check value).HasReason := by
  cases value with
  | array values => exact hasReason_items hcheck 0 values
  | _ => simp [list]

theorem hasReason_model {check : Members Json → Checked α}
    (hcheck : ∀ fields, (check fields).HasReason) (value : Json) :
    (model check value).HasReason := by
  cases value with
  | object fields => exact hcheck fields
  | _ => simp [model]

/-- Items that are accepted as they were written make an accepted list. -/
theorem items_map {write : α → Json} (index : Nat) {items : List α}
    (hitems : ∀ item ∈ items, check (write item) = .valid item) :
    Checked.items check index (items.map write) = .valid items := by
  induction items generalizing index with
  | nil => rfl
  | cons item rest ih =>
    obtain ⟨hitem, hrest⟩ := List.forall_mem_cons.1 hitems
    rw [List.map_cons, Checked.items, hitem, ih (index + 1) hrest]
    rfl

/-- All items of an accepted list were accepted. -/
theorem exists_of_mem_items {index : Nat} {values : List Json} {items : List α} {item : α}
    (h : Checked.items check index values = .valid items) (hmem : item ∈ items) :
    ∃ value ∈ values, check value = .valid item := by
  induction values generalizing index items with
  | nil =>
    cases h
    cases hmem
  | cons value rest ih =>
    obtain ⟨_, others, hhead, hothers, rfl⟩ := ap_eq_valid h
    obtain ⟨first, hfirst, rfl⟩ := map_eq_valid hhead
    rcases List.mem_cons.1 hmem with rfl | hmem
    · exact ⟨value, List.mem_cons_self, within_eq_valid_iff.1 hfirst⟩
    · obtain ⟨other, hother, hvalid⟩ := ih hothers hmem
      exact ⟨other, List.mem_cons_of_mem _ hother, hvalid⟩

theorem count_eq_valid_iff {value : Json} {n : Nat} :
    count value = .valid n ↔ int value = .valid (n : Int) := by
  rw [count]
  cases int value with
  | invalid issues => simp [andThen]
  | valid i =>
    rw [andThen]
    split
    · simp only [Checked.fail, reduceCtorEq, valid.injEq, false_iff]
      omega
    · simp only [valid.injEq]
      omega

end Check

def Decides {α : Type} (check : Check α) (default : α) (given : Option Json) (value : α) : Prop :=
  match given with
  | none => value = default
  | some json => check json = .valid value

namespace Members

open Checked

variable {α : Type} {check : Check α} {fields : Members Json}

theorem withDefault_eq_valid_iff {name : String} {default value : α} :
    fields.withDefault name check default = .valid value ↔
      Decides check default (fields.get? name) value := by
  rw [withDefault]
  cases fields.get? name with
  | none => exact ⟨fun h => (valid.inj h).symm, fun h => congrArg valid h.symm⟩
  | some json => exact within_eq_valid_iff

theorem hasReason_withDefault (hcheck : ∀ value, (check value).HasReason) (name : String)
    (default : α) : (fields.withDefault name check default).HasReason := by
  rw [withDefault]
  cases fields.get? name with
  | none => exact hasReason_valid default
  | some json => exact (hcheck json).within _

theorem hasReason_required (hcheck : ∀ value, (check value).HasReason) (name : String) :
    (fields.required name check).HasReason := by
  rw [required]
  cases fields.get? name with
  | none => exact (hasReason_fail _).within _
  | some json => exact (hcheck json).within _

/-- The faults of a field that may be left out. -/
theorem faults_withDefault (name : String) (check : Check α) (default : α) :
    (fields.withDefault name check default).faults =
      (((fields.get? name).map fun json => (check json).faults).getD []).map fun issue =>
        { issue with location := .field name :: issue.location } := by
  rw [withDefault]
  cases fields.get? name with
  | none => rfl
  | some json => exact faults_within _ _

end Members

/-! Fields that make a diagnostic. -/

namespace Check

@[simp]
theorem string_ofText (text : LooseText) : string (.ofText text) = .valid text := by
  rw [string, Json.asText?_ofText]

theorem optional_string (text : Option LooseText) :
    optional string (text.elim .null .ofText) = .valid text := by
  cases text with
  | none => rfl
  | some text =>
    have hnotNull : Json.ofText text ≠ .null := by
      rw [Json.ofText]
      split <;> simp
    rw [Option.elim_some, optional, string_ofText, Checked.map]
    exact hnotNull

theorem count_natCast (n : Nat) : count (.int n) = .valid n := count_eq_valid_iff.2 rfl

end Check

namespace Diagnostic

/-- Fields of the kinds that the checks ask for make the diagnostic, in any order and among any
others. -/
theorem ofFields_eq_valid {d : Diagnostic} {fields : Members Json} {code : Json}
    (hfile : fields.get? "file" = some (.ofText d.file))
    (hline : fields.get? "line" = some (.int d.line))
    (hcolumn : fields.get? "column" = some (.int d.column))
    (hmessage : fields.get? "message" = some (.ofText d.message))
    (hseverity : fields.get? "severity" = some (.string d.severity.name))
    (hcode : fields.get? "code" = some code)
    (hchecked : Check.optional Check.string code = .valid d.code) :
    ofFields fields = .valid d := by
  simp only [ofFields, Members.required, Members.withDefault, hfile, hline, hcolumn, hmessage,
    hseverity, hcode, hchecked, Check.count_natCast, Check.string_ofText, Check.oneOf,
    d.severity.ofName?_name]
  rfl

theorem ofFields_fields (d : Diagnostic) : ofFields d.fields = .valid d := by
  exact ofFields_eq_valid rfl rfl rfl rfl rfl rfl (Check.optional_string d.code)

end Diagnostic

end ProjectCheck
