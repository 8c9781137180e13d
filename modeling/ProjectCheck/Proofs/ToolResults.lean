import ProjectCheck.Proofs.Json.Members
import ProjectCheck.Proofs.Tools
import ProjectCheck.Proofs.Validation

/-!
Results of tools agree with themselves. Whatever a result is made from, its counts are those of its
diagnostics, its verdict is that there are no errors, and where there was no run nothing was found.
What a result consists of makes the same result again.
-/
namespace ProjectCheck

inductive GivenDiagnostic where
  | record (d : Diagnostic)
  | value (value : Json)

inductive Argument where
  | value (value : Json)
  | items (items : List GivenDiagnostic)

namespace GivenDiagnostic

def check : GivenDiagnostic → Checked Diagnostic
  | record d => .valid d
  | value v => Check.model Diagnostic.ofFields v

def checkAll (index : Nat) : List GivenDiagnostic → Checked (List Diagnostic)
  | [] => .valid []
  | item :: rest => ((item.check.within (.item index)).map List.cons).ap (checkAll (index + 1) rest)

theorem checkAll_records (index : Nat) (ds : List Diagnostic) :
    checkAll index (ds.map record) = .valid ds := by
  induction ds generalizing index with
  | nil => rfl
  | cons d rest ih =>
    rw [List.map_cons, checkAll, ih]
    rfl

end GivenDiagnostic

namespace Argument

def checkBy {α : Type} (check : Check α) : Argument → Checked α
  | value v => check v
  | items _ => check (.array [])

def checkDiagnostics : Argument → Checked (List Diagnostic)
  | value v => Check.list (Check.model Diagnostic.ofFields) v
  | items given => GivenDiagnostic.checkAll 0 given

def named {α : Type} (name : String) (check : Argument → Checked α) (default : α)
    (arguments : Members Argument) : Checked α :=
  match arguments.get? name with
  | some given => (check given).within (.field name)
  | none => .valid default

theorem named_eq_valid {α : Type} {name : String} {check : Argument → Checked α} {default a : α}
    {arguments : Members Argument} {given : Argument} (hgiven : arguments.get? name = some given)
    (hvalid : check given = .valid a) : named name check default arguments = .valid a := by
  rw [named, hgiven]
  exact congrArg (Checked.within (.field name)) hvalid

/-- Values are checked as the fields of a record are. -/
theorem named_values {α : Type} {check : Argument → Checked α} (checkValue : Check α)
    (hcheck : ∀ v, check (value v) = checkValue v) (name : String) (default : α)
    (fields : Members Json) :
    named name check default (fields.map (Prod.map id value)) =
      fields.withDefault name checkValue default := by
  rw [named, Members.withDefault, Members.get?_map]
  cases fields.get? name with
  | none => rfl
  | some v => exact congrArg (Checked.within (.field name)) (hcheck v)

end Argument

namespace ToolResult

open Argument

def ofArguments (arguments : Members Argument) : Checked ToolResult :=
  ((named "success" (checkBy .bool) true arguments).map mk
    |>.ap (named "diagnostics" checkDiagnostics [] arguments)
    |>.ap (named "error_count" (checkBy .count) 0 arguments)
    |>.ap (named "warning_count" (checkBy .count) 0 arguments)
    |>.ap (named "skipped" (checkBy (.optional .string)) none arguments)
    |>.ap (named "tool" (checkBy (.optional .string)) none arguments)).andThen checkAgreement

/-- Where no diagnostics are among them, the arguments are the fields of a record. -/
theorem ofArguments_values (fields : Members Json) :
    ofArguments (fields.map (Prod.map id value)) = ofFields fields := by
  rw [ofArguments, ofFields, named_values .bool fun _ => rfl,
    named_values (.list (.model Diagnostic.ofFields)) fun _ => rfl,
    named_values .count fun _ => rfl,
    named_values .count fun _ => rfl,
    named_values (.optional .string) fun _ => rfl,
    named_values (.optional .string) fun _ => rfl]

structure IsConsistent (r : ToolResult) : Prop where
  errors : r.errorCount = (r.diagnostics.filter fun d => d.severity = .error).length
  total : r.errorCount + r.warningCount = r.diagnostics.length
  success_iff : r.success = true ↔ r.errorCount = 0
  skipped : r.skipped ≠ none → r.diagnostics = [] ∧ r.success = true

theorem countErrors_eq (ds : List Diagnostic) :
    countErrors ds = (ds.filter fun d => d.severity = .error).length :=
  List.countP_eq_length_filter

/-- A result is refused exactly when it does not agree with itself. -/
theorem disagreement?_eq_none_iff (r : ToolResult) : r.disagreement? = none ↔ r.IsConsistent := by
  have hle : countErrors r.diagnostics ≤ r.diagnostics.length := List.countP_le_length
  constructor
  · intro h
    simp only [disagreement?] at h
    split at h
    · cases h
    · rename_i hcounts
      split at h
      · cases h
      · rename_i hsuccess
        split at h
        · cases h
        · rename_i hskipped
          simp only [not_or, Decidable.not_not] at hcounts hsuccess
          obtain ⟨herrors, hwarnings⟩ := hcounts
          have hiff : r.success = true ↔ r.errorCount = 0 := by
            rw [hsuccess, decide_eq_true_iff, herrors]
          refine ⟨herrors.trans (countErrors_eq _), by omega, hiff, fun hsome => ?_⟩
          have hnil : r.diagnostics = [] := Decidable.byContradiction fun hne =>
            hskipped ⟨Option.isSome_iff_ne_none.2 hsome, hne⟩
          refine ⟨hnil, hiff.2 ?_⟩
          rw [herrors, hnil]
          rfl
  · intro h
    have herrors : r.errorCount = countErrors r.diagnostics :=
      h.errors.trans (countErrors_eq _).symm
    have htotal := h.total
    have hsuccess : r.success = (countErrors r.diagnostics = 0 : Bool) := by
      rw [Bool.eq_iff_iff, h.success_iff, decide_eq_true_iff, herrors]
    have hcounts : ¬ (r.errorCount ≠ countErrors r.diagnostics ∨
        r.warningCount ≠ r.diagnostics.length - countErrors r.diagnostics) := by
      omega
    have hskipped : ¬ (r.skipped.isSome = true ∧ r.diagnostics ≠ []) :=
      fun ⟨hsome, hne⟩ => hne (h.skipped (Option.isSome_iff_ne_none.1 hsome)).1
    simp only [disagreement?, if_neg hcounts, if_neg (Decidable.not_not.2 hsuccess),
      if_neg hskipped]

theorem checkAgreement_eq_valid_iff {r accepted : ToolResult} :
    r.checkAgreement = .valid accepted ↔ r = accepted ∧ accepted.IsConsistent := by
  rw [← disagreement?_eq_none_iff, checkAgreement]
  cases h : r.disagreement? with
  | some message =>
    refine ⟨nofun, ?_⟩
    rintro ⟨rfl, hnone⟩
    cases h.symm.trans hnone
  | none =>
    refine ⟨?_, fun ⟨heq, _⟩ => congrArg Checked.valid heq⟩
    rintro ⟨⟩
    exact ⟨rfl, h⟩

/-- Whatever was given for its fields, a result that is accepted agrees with itself. -/
theorem isConsistent_of_andThen {checked : Checked ToolResult} {r : ToolResult}
    (h : checked.andThen checkAgreement = .valid r) : r.IsConsistent := by
  cases checked with
  | invalid issues => cases h
  | valid made => exact (checkAgreement_eq_valid_iff.1 h).2

/-! What a result consists of. -/

def textOrNull (text : Option LooseText) : Json := text.elim .null .ofText

def arguments (r : ToolResult) : Members Argument := [
  ("success", .value (.bool r.success)), ("diagnostics", .items (r.diagnostics.map .record)),
  ("error_count", .value (.int r.errorCount)), ("warning_count", .value (.int r.warningCount)),
  ("skipped", .value (textOrNull r.skipped)), ("tool", .value (textOrNull r.tool))]

def fields (r : ToolResult) : Members Json := [
  ("success", .bool r.success), ("diagnostics", .array (r.diagnostics.map (.object ·.fields))),
  ("error_count", .int r.errorCount), ("warning_count", .int r.warningCount),
  ("skipped", textOrNull r.skipped), ("tool", textOrNull r.tool)]

/-- Arguments that pass their checks make a result, unless that does not agree with itself. -/
theorem ofArguments_eq {arguments : Members Argument} {r : ToolResult}
    (hsuccess : named "success" (checkBy .bool) true arguments = .valid r.success)
    (hdiagnostics : named "diagnostics" checkDiagnostics [] arguments = .valid r.diagnostics)
    (herrors : named "error_count" (checkBy .count) 0 arguments = .valid r.errorCount)
    (hwarnings : named "warning_count" (checkBy .count) 0 arguments = .valid r.warningCount)
    (hskipped : named "skipped" (checkBy (.optional .string)) none arguments = .valid r.skipped)
    (htool : named "tool" (checkBy (.optional .string)) none arguments = .valid r.tool) :
    ofArguments arguments = r.checkAgreement := by
  rw [ofArguments, hsuccess, hdiagnostics, herrors, hwarnings, hskipped, htool]
  rfl

/-- What a result consists of makes the result again. -/
theorem ofArguments_arguments {r : ToolResult} (h : r.IsConsistent) :
    ofArguments r.arguments = .valid r := by
  refine (ofArguments_eq ?_ ?_ ?_ ?_ ?_ ?_).trans (checkAgreement_eq_valid_iff.2 ⟨rfl, h⟩)
  · exact named_eq_valid rfl rfl
  · exact named_eq_valid rfl (GivenDiagnostic.checkAll_records 0 r.diagnostics)
  · exact named_eq_valid rfl (Check.count_natCast r.errorCount)
  · exact named_eq_valid rfl (Check.count_natCast r.warningCount)
  · exact named_eq_valid rfl (Check.optional_string r.skipped)
  · exact named_eq_valid rfl (Check.optional_string r.tool)

theorem ofFields_fields {r : ToolResult} (h : r.IsConsistent) : ofFields r.fields = .valid r := by
  rw [← ofArguments_values]
  refine (ofArguments_eq ?_ ?_ ?_ ?_ ?_ ?_).trans (checkAgreement_eq_valid_iff.2 ⟨rfl, h⟩)
  · exact named_eq_valid rfl rfl
  · exact named_eq_valid rfl (Check.items_map 0 fun d _ => d.ofFields_fields)
  · exact named_eq_valid rfl (Check.count_natCast r.errorCount)
  · exact named_eq_valid rfl (Check.count_natCast r.warningCount)
  · exact named_eq_valid rfl (Check.optional_string r.skipped)
  · exact named_eq_valid rfl (Check.optional_string r.tool)

/-! How results are made. -/

def runArguments (ds : List Diagnostic) (tool : Json) : Members Argument := [
  ("success", .value (.bool (countErrors ds = 0))), ("diagnostics", .items (ds.map .record)),
  ("error_count", .value (.int (countErrors ds))),
  ("warning_count", .value (.int (ds.length - countErrors ds))), ("tool", .value tool)]

theorem isConsistent_ofDiagnostics (ds : List Diagnostic) (tool : Option LooseText) :
    (ofDiagnostics ds tool).IsConsistent where
  errors := countErrors_eq ds
  total := countErrors_add_countWarnings ds
  success_iff := decide_eq_true_iff
  skipped := nofun

theorem isConsistent_skip (reason : LooseText) (tool : Option LooseText) :
    (skip reason tool).IsConsistent :=
  ⟨rfl, rfl, iff_of_true rfl rfl, fun _ => ⟨rfl, rfl⟩⟩

/-- A run is only refused for its tool. -/
theorem ofArguments_runArguments (ds : List Diagnostic) (tool : Json) :
    ofArguments (runArguments ds tool) = ofRun ds tool := by
  have hsuccess : named "success" (checkBy .bool) true (runArguments ds tool) =
      .valid (decide (countErrors ds = 0)) := named_eq_valid rfl rfl
  have hdiagnostics : named "diagnostics" checkDiagnostics [] (runArguments ds tool) = .valid ds :=
    named_eq_valid rfl (GivenDiagnostic.checkAll_records 0 ds)
  have herrors : named "error_count" (checkBy .count) 0 (runArguments ds tool) =
      .valid (countErrors ds) := named_eq_valid rfl (Check.count_natCast _)
  have hwarnings : named "warning_count" (checkBy .count) 0 (runArguments ds tool) =
      .valid (countWarnings ds) := by
    have hcount : (ds.length : Int) - countErrors ds = countWarnings ds := by
      have := countErrors_add_countWarnings ds
      omega
    refine named_eq_valid rfl ?_
    rw [hcount]
    exact Check.count_natCast _
  rw [ofRun, toolOf]
  cases htool : Check.optional .string tool with
  | valid name =>
    rw [ofArguments_eq (r := ofDiagnostics ds name) hsuccess hdiagnostics herrors hwarnings rfl
      (named_eq_valid rfl htool),
      checkAgreement_eq_valid_iff.2 ⟨rfl, isConsistent_ofDiagnostics ..⟩]
    rfl
  | invalid issues =>
    have hnamed : named "tool" (checkBy (.optional .string)) none (runArguments ds tool) =
        (Checked.invalid issues).within (.field "tool") :=
      congrArg (Checked.within (.field "tool")) htool
    rw [ofArguments, hsuccess, hdiagnostics, herrors, hwarnings, hnamed]
    rfl

structure IsSound (r : ToolResult) : Prop where
  consistent : r.IsConsistent
  ofArguments_eq : ofArguments r.arguments = .valid r
  ofFields_eq : ofFields r.fields = .valid r

theorem IsConsistent.isSound {r : ToolResult} (h : r.IsConsistent) : r.IsSound :=
  ⟨h, ofArguments_arguments h, ofFields_fields h⟩

theorem isSound_of_ofRun {ds : List Diagnostic} {tool : Json} {r : ToolResult}
    (h : ofRun ds tool = .valid r) : r.IsSound := by
  obtain ⟨name, -, rfl⟩ := Checked.map_eq_valid h
  exact (isConsistent_ofDiagnostics ds name).isSound

theorem toolOf_textOrNull (tool : Option LooseText) : toolOf (textOrNull tool) = .valid tool := by
  rw [toolOf, textOrNull, Check.optional_string]
  rfl

theorem ofRun_textOrNull (ds : List Diagnostic) (tool : Option LooseText) :
    ofRun ds (textOrNull tool) = .valid (ofDiagnostics ds tool) := by
  rw [ofRun, toolOf_textOrNull]
  rfl

theorem ofSkip_ofText (reason : LooseText) (tool : Option LooseText) :
    ofSkip (.ofText reason) (textOrNull tool) = .valid (skip reason tool) := by
  rw [ofSkip, ← ofArguments_values]
  refine (ofArguments_eq rfl rfl rfl rfl ?_ ?_).trans
    (checkAgreement_eq_valid_iff.2 ⟨rfl, isConsistent_skip reason tool⟩)
  · exact named_eq_valid rfl (Check.optional_string (some reason))
  · exact named_eq_valid rfl (Check.optional_string tool)

theorem ofCrash_ofText (tool : LooseText) : ofCrash (.ofText tool) = .valid (crash tool) := by
  have hname : (Json.ofText tool).plain = tool := by
    rw [Json.plain, Json.asText?_ofText, Option.getD_some]
  rw [ofCrash, hname]
  exact ofRun_textOrNull _ (some tool)

/-- Every result agrees with itself and is made again by what it consists of, whatever its fields
were taken from, and whether it is made from fields, from diagnostics, for a run that did not take
place or failed without a word, or from what a tool said. Diagnostics, reasons and names of tools
are never refused. -/
theorem results_are_consistent :
    (∀ (checked : Checked ToolResult) r, checked.andThen checkAgreement = .valid r → r.IsSound) ∧
    (∀ arguments r, ofArguments arguments = .valid r → r.IsSound) ∧
    (∀ ds tool r, ofRun ds tool = .valid r → r.IsSound) ∧
    (∀ reason tool r, ofSkip reason tool = .valid r → r.IsSound) ∧
    (∀ tool r, ofCrash tool = .valid r → r.IsSound) ∧
    (∀ (tool : Tool) (text : String) r, tool.checkTool.read text = .ok r → r.IsSound) ∧
    (∀ ds tool, ofRun ds (textOrNull tool) = .valid (ofDiagnostics ds tool) ∧
      ofArguments (runArguments ds (textOrNull tool)) = .valid (ofDiagnostics ds tool)) ∧
    (∀ reason tool, ofSkip (.ofText reason) (textOrNull tool) = .valid (skip reason tool)) ∧
    ∀ tool, ofCrash (.ofText tool) = .valid (crash tool) ∧
      Diagnostic.ofFields (Diagnostic.crash tool).fields = .valid (Diagnostic.crash tool) := by
  have hmade (checked : Checked ToolResult) (r : ToolResult)
      (h : checked.andThen checkAgreement = .valid r) : r.IsSound :=
    (isConsistent_of_andThen h).isSound
  refine ⟨hmade, fun arguments r h => hmade _ r h, fun _ _ _ h => isSound_of_ofRun h,
    fun _ _ r h => hmade _ r h, fun _ _ h => isSound_of_ofRun h, fun tool text r h => ?_,
    fun ds tool => ⟨ofRun_textOrNull ds tool, ?_⟩, ofSkip_ofText,
    fun tool => ⟨ofCrash_ofText tool, Diagnostic.ofFields_fields _⟩⟩
  · rw [tool.read_eq] at h
    obtain ⟨ds, hread, -⟩ | ⟨failure, hread, -⟩ :=
      Checker.readLines_cases tool.name tool.readLine text
    · obtain rfl := Except.ok.inj (hread.symm.trans h)
      exact (isConsistent_ofDiagnostics ds _).isSound
    · cases hread.symm.trans h
  · rw [ofArguments_runArguments, ofRun_textOrNull]

end ToolResult

end ProjectCheck
