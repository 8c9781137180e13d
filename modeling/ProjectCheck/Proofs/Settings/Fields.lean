import ProjectCheck.Proofs.FirstOccurrences
import ProjectCheck.Proofs.Settings.Entries
import ProjectCheck.Settings.Basic

/-!
Settings and the values that they are made of. Each setting is made of its own value alone, accepted
settings are sound, and the fields of accepted settings make the same settings again.
-/
namespace ProjectCheck

open Text Checked

def SettingKey.faults : SettingKey → Json → List Issue
  | checkerTimeout, value => (Settings.positive value).faults
  | publicationWait, value => (Settings.nonnegative value).faults
  | publicationRetries, value => (Check.count value).faults
  | ignoredDirectories, value => (Check.list .string value).faults
  | serverOverrides, value => (Check.list (.model ServerOverride.ofFields) value).faults

namespace Settings

variable {values : SettingKey → Option Json} {given : Members Json} {s : Settings}

def faults (values : SettingKey → Option Json) : List Issue :=
  SettingKey.all.flatMap fun key => (((values key).map key.faults).getD []).map fun issue =>
    { issue with location := .field key.name :: issue.location }

/-- The settings are made of the values that there are, and of the defaults. Times are numbers that
are not below their bounds, retries a whole number, and of the names those that are not empty are
kept where they first stand. -/
structure IsMadeOf (values : SettingKey → Option Json) (s : Settings) : Prop where
  timeout : Decides .float defaultTimeout (values .checkerTimeout) s.checkerTimeout
  positive : s.checkerTimeout.isPositive = true
  wait : Decides .float defaultWait (values .publicationWait) s.publicationWait
  nonnegative : s.publicationWait.isNonnegative = true
  retries : Decides .int 0 (values .publicationRetries) (s.publicationRetries : Int)
  ignored : ∃ names, Decides (.list .string) defaultIgnored (values .ignoredDirectories) names ∧
    AreFirstOccurrences s.ignoredDirectories (names.filter (· ≠ []))
  servers : Decides (.list (.model ServerOverride.ofFields)) [] (values .serverOverrides)
    s.serverOverrides

theorem andThen_require_eq_valid_iff {α : Type} {checked : Checked α} {kind : IssueKind}
    {test : α → Bool} {a : α} :
    checked.andThen (require kind test) = .valid a ↔ checked = .valid a ∧ test a = true := by
  cases checked with
  | invalid issues => simp [andThen]
  | valid b =>
    rw [andThen, require]
    split
    · grind
    · simp only [Checked.fail, reduceCtorEq, false_iff]
      grind

theorem isPositive_defaultTimeout : defaultTimeout.isPositive = true := by decide +kernel

theorem isNonnegative_defaultWait : defaultWait.isNonnegative = true := by decide +kernel

theorem decides_positive_iff {given : Option Json} {value : Decimal.Binary64} :
    Decides positive defaultTimeout given value ↔
      Decides .float defaultTimeout given value ∧ value.isPositive = true := by
  cases given with
  | none =>
    refine ⟨fun h => ⟨h, ?_⟩, And.left⟩
    rw [show value = defaultTimeout from h]
    exact isPositive_defaultTimeout
  | some json => exact andThen_require_eq_valid_iff

theorem decides_nonnegative_iff {given : Option Json} {value : Decimal.Binary64} :
    Decides nonnegative defaultWait given value ↔
      Decides .float defaultWait given value ∧ value.isNonnegative = true := by
  cases given with
  | none =>
    refine ⟨fun h => ⟨h, ?_⟩, And.left⟩
    rw [show value = defaultWait from h]
    exact isNonnegative_defaultWait
  | some json => exact andThen_require_eq_valid_iff

theorem decides_count_iff {given : Option Json} {n : Nat} :
    Decides .count 0 given n ↔ Decides .int 0 given (n : Int) := by
  cases given with
  | none => exact Int.natCast_eq_zero.symm
  | some json => exact Check.count_eq_valid_iff

/-- The fields make just the settings that are made of their values. -/
theorem ofFields_eq_valid_iff (hvalues : ∀ key : SettingKey, given.get? key.name = values key) :
    ofFields given = .valid s ↔ s.IsMadeOf values := by
  constructor
  · intro h
    -- The fields come off from the last one to the first.
    obtain ⟨_, _, hignored, hservers, rfl⟩ := ap_eq_valid h
    obtain ⟨_, _, hretries, hnames, rfl⟩ := ap_eq_valid hignored
    obtain ⟨_, _, hwait, hcount, rfl⟩ := ap_eq_valid hretries
    obtain ⟨_, _, htimeout, hnonnegative, rfl⟩ := ap_eq_valid hwait
    obtain ⟨_, hpositive, rfl⟩ := map_eq_valid htimeout
    obtain ⟨names, hlist, rfl⟩ := map_eq_valid hnames
    rw [Members.withDefault_eq_valid_iff, hvalues] at hservers hlist hcount hnonnegative hpositive
    obtain ⟨htime, hpositive⟩ := decides_positive_iff.1 hpositive
    obtain ⟨hpause, hnonnegative⟩ := decides_nonnegative_iff.1 hnonnegative
    exact ⟨htime, hpositive, hpause, hnonnegative, decides_count_iff.1 hcount,
      ⟨names, hlist, areFirstOccurrences_eraseDups _⟩, hservers⟩
  · rintro ⟨htime, hpositive, hpause, hnonnegative, hretries, ⟨names, hlist, hfirst⟩, hservers⟩
    have htimeout := decides_positive_iff.2 ⟨htime, hpositive⟩
    have hwait := decides_nonnegative_iff.2 ⟨hpause, hnonnegative⟩
    have hcount := decides_count_iff.2 hretries
    have hclean : cleanNames names = s.ignoredDirectories := hfirst.eq_eraseDups.symm
    rw [← hvalues, ← Members.withDefault_eq_valid_iff] at htimeout hwait hcount hlist hservers
    rw [ofFields, htimeout, hwait, hcount, hlist, hservers]
    simp only [Checked.map, Checked.ap, hclean]

theorem hasReason_ofFields (given : Members Json) : (ofFields given).HasReason := by
  have hpositive : ∀ value, (positive value).HasReason := fun value =>
    (Check.hasReason_float value).andThen (hasReason_require _ _)
  have hnonnegative : ∀ value, (nonnegative value).HasReason := fun value =>
    (Check.hasReason_float value).andThen (hasReason_require _ _)
  have hservers := Check.hasReason_list (Check.hasReason_model ServerOverride.hasReason_ofFields)
  exact (((((Members.hasReason_withDefault hpositive _ _).map _).ap
    (Members.hasReason_withDefault hnonnegative _ _)).ap
    (Members.hasReason_withDefault Check.hasReason_count _ _)).ap
    ((Members.hasReason_withDefault (Check.hasReason_list Check.hasReason_string) _ _).map _)).ap
    (Members.hasReason_withDefault hservers _ _)

theorem faults_ofFields (hvalues : ∀ key : SettingKey, given.get? key.name = values key) :
    (ofFields given).faults = faults values := by
  simp only [ofFields, faults_ap, faults_map, Members.faults_withDefault, hvalues, faults,
    SettingKey.all, List.flatMap_cons, List.flatMap_nil, List.append_nil, List.append_assoc]
  rfl

/-- The fields are refused just for the faults of their values. -/
theorem ofFields_eq_invalid_iff (hvalues : ∀ key : SettingKey, given.get? key.name = values key)
    {issues : List Issue} :
    ofFields given = .invalid issues ↔ issues ≠ [] ∧ issues = faults values := by
  rw [(hasReason_ofFields given).eq_invalid_iff, faults_ofFields hvalues]

/-! Accepted settings. -/

structure IsSound (s : Settings) : Prop where
  timeout : s.checkerTimeout.isPositive = true
  wait : s.publicationWait.isNonnegative = true
  ignored_nodup : s.ignoredDirectories.Nodup
  ignored_nonempty : [] ∉ s.ignoredDirectories
  extensions : ∀ entry ∈ s.serverOverrides, ∀ extension ∈ entry.extensions,
    extension.head? = some (.char '.') ∧ lower extension = extension

theorem IsMadeOf.isAccepted (h : s.IsMadeOf values) :
    ∀ entry ∈ s.serverOverrides, entry.IsAccepted := by
  intro entry hmem
  have hservers := h.servers
  cases hvalue : values .serverOverrides with
  | none =>
    rw [hvalue] at hservers
    rw [show s.serverOverrides = [] from hservers] at hmem
    cases hmem
  | some value =>
    rw [hvalue] at hservers
    replace hservers : Check.list (.model ServerOverride.ofFields) value =
        .valid s.serverOverrides := hservers
    cases value with
    | array items =>
      obtain ⟨item, -, hitem⟩ := Check.exists_of_mem_items hservers hmem
      cases item with
      | object fields => exact ⟨fields, hitem⟩
      | _ => cases hitem
    | _ => cases hservers

theorem IsMadeOf.isSound (h : s.IsMadeOf values) : s.IsSound := by
  obtain ⟨names, -, hfirst⟩ := h.ignored
  refine ⟨h.positive, h.nonnegative, hfirst.nodup, fun hempty => ?_, fun entry hentry e he => ?_⟩
  · have hkept := (List.mem_filter.1 ((hfirst.mem_iff []).1 hempty)).2
    exact absurd rfl (of_decide_eq_true hkept)
  · obtain ⟨given, rfl⟩ := (h.isAccepted entry hentry).normalized e he
    exact ⟨ServerOverride.head_normalizeExtension given,
      (ServerOverride.isKept_normalizeExtension given).2⟩

def value (s : Settings) : SettingKey → Json
  | .checkerTimeout => .float s.checkerTimeout
  | .publicationWait => .float s.publicationWait
  | .publicationRetries => .int s.publicationRetries
  | .ignoredDirectories => .array (s.ignoredDirectories.map .ofText)
  | .serverOverrides => .array (s.serverOverrides.map (.object ·.fields))

def fields (s : Settings) : Members Json := SettingKey.all.map fun key => (key.name, s.value key)

theorem get?_fields (s : Settings) (key : SettingKey) :
    s.fields.get? key.name = some (s.value key) := by
  cases key <;> rfl

/-- Accepted settings are made of their own values. -/
theorem IsMadeOf.again (h : s.IsMadeOf values) : s.IsMadeOf fun key => some (s.value key) := by
  have hsound := h.isSound
  refine ⟨rfl, h.positive, rfl, h.nonnegative, rfl, ⟨s.ignoredDirectories, ?_, ?_⟩, ?_⟩
  · exact Check.items_map 0 fun name _ => Check.string_ofText name
  · have hall : s.ignoredDirectories.filter (· ≠ []) = s.ignoredDirectories :=
      List.filter_eq_self.2 fun name hname => decide_eq_true fun hempty =>
        hsound.ignored_nonempty (hempty ▸ hname)
    rw [hall]
    exact .self hsound.ignored_nodup
  · exact Check.items_map 0 fun entry hentry => (h.isAccepted entry hentry).ofFields_fields

end Settings

end ProjectCheck
