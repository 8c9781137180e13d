import ProjectCheck.Proofs.Server.Registries
import ProjectCheck.Proofs.Settings.Entries
import ProjectCheck.Proofs.Walks

/-!
Files that are found and files that have a server. The extensions of known servers and those that
users give are in lower case and none is empty, so that a search for all extensions of a registry
finds just the files for which the registry has a server.
-/
namespace ProjectCheck

open Text

/-! Registries with such extensions. -/

namespace Registry

variable {registry : Registry}

def KeepsExtensions (registry : Registry) : Prop :=
  ∀ entry ∈ registry.entries, ∀ extension ∈ entry.2.extensions, IsKept extension

theorem KeepsExtensions.register (h : registry.KeepsExtensions) {spec : ServerSpec}
    (hspec : ∀ extension ∈ spec.extensions, IsKept extension) :
    (registry.register spec).KeepsExtensions := by
  intro entry hmem
  rcases Members.mem_set hmem with rfl | hmem
  · exact hspec
  · exact h entry hmem

theorem KeepsExtensions.applyOverride (h : registry.KeepsExtensions) {entry : ServerOverride}
    (hentry : ∀ extension ∈ entry.extensions, IsKept extension) :
    (registry.applyOverride entry).KeepsExtensions := by
  rw [Registry.applyOverride]
  split
  · refine h.register ?_
    cases hcurrent : registry.get? entry.name with
    | none => exact hentry
    | some server =>
      have hserver := h _ (Members.mem_of_get? hcurrent)
      simp only [overridden]
      split
      · exact hserver
      · exact hentry
  · exact fun other hmem => h other (List.mem_filter.1 hmem).1

theorem keepsExtensions_ofSpecs {specs : List ServerSpec}
    (h : ∀ spec ∈ specs, ∀ extension ∈ spec.extensions, IsKept extension) :
    (ofSpecs specs).KeepsExtensions :=
  List.foldlRecOn specs register (motive := KeepsExtensions) nofun
    fun _ hkept spec hmem => hkept.register (h spec hmem)

def isUnchanged : Code → Bool
  | .char c => c.toNat.blt 65 || Nat.blt 90 c.toNat && c.toNat.blt 192
  | .lone _ => false

theorem isKept_builtin : ∀ spec ∈ builtinServers, ∀ extension ∈ spec.extensions,
    IsKept extension := by
  have hall : builtinServers.all (fun spec => spec.extensions.all fun extension =>
      !extension.isEmpty && extension.all isUnchanged) = true := by decide +kernel
  intro spec hspec extension hextension
  have hcodes := List.all_eq_true.1 (List.all_eq_true.1 hall spec hspec) extension hextension
  obtain ⟨hnonempty, hletters⟩ := (Bool.and_eq_true _ _).mp hcodes
  constructor
  · rintro rfl
    cases hnonempty
  · refine lower_eq_self_iff.2 fun code hcode => ?_
    have hletter := List.all_eq_true.1 hletters code hcode
    cases code with
    | char c =>
      simp only [isUnchanged, Bool.and_eq_true, Bool.or_eq_true, Nat.blt_eq] at hletter
      exact isLower_of_lt (by omega) (by omega)
    | lone n => cases hletter

theorem keepsExtensions_ofOverrides {entries : List ServerOverride}
    (h : ∀ entry ∈ entries, entry.IsAccepted) : (ofOverrides entries).KeepsExtensions :=
  List.foldlRecOn entries applyOverride (motive := KeepsExtensions)
    (keepsExtensions_ofSpecs isKept_builtin)
    fun _ hkept entry hmem => hkept.applyOverride (h entry hmem).isKept

/-- A file has a server exactly when a search for all extensions wants it. -/
theorem KeepsExtensions.isSome_forFile?_iff (h : registry.KeepsExtensions) (path : Path) :
    (registry.forFile? path).isSome ↔ path.extension ∈ registry.extensions.map lower := by
  have hkept : ∀ extension ∈ registry.extensions, IsKept extension := by
    intro extension hmem
    obtain ⟨spec, hspec, hlisted⟩ := mem_extensions.1 hmem
    obtain ⟨entry, hentry, rfl⟩ := List.mem_map.1 hspec
    exact h entry hentry extension hlisted
  have hsame : registry.extensions.map lower = registry.extensions :=
    (List.map_congr_left fun extension hmem => (hkept extension hmem).2).trans (List.map_id _)
  rw [Registry.isSome_forFile?_iff, hsame]
  exact and_iff_right_of_imp fun hmem => (hkept _ hmem).1

end Registry

namespace Machine

variable {m : Machine}

/-- A walk comes by a file, whatever its extension: the names lead to it through directories that
can be listed and of which those below the first one are not ignored. -/
inductive ComesBy (m : Machine) (ignored : List LooseText) (directory : Path) :
    List LooseText → Prop
  | through {location way : List LooseText} {top : Node} {name : LooseText}
      (hfound : m.find directory.text = .ok (location, top))
      (isFile : ∃ entry, top.at? (way ++ [name]) = some entry ∧
        m.HoldsFile (directory.below way) name entry)
      (listed : ∀ before, before <+: way →
        (∃ entries, top.at? before = some (.directory entries)) ∧
          m.Lists (directory.below before) (location ++ before))
      (entered : ∀ step ∈ way, step ∉ ignored) : ComesBy m ignored directory (way ++ [name])

theorem finds_iff {extensions ignored : List LooseText} {directory : Path}
    {names : List LooseText} :
    m.Finds (.of extensions ignored) directory names ↔
      m.ComesBy ignored directory names ∧
        (directory.below names).extension ∈ extensions.map lower := by
  constructor
  · rintro ⟨location, top, hfound, way, name, rfl, h⟩
    exact ⟨.through hfound h.isFile h.listed h.entered, h.wanted⟩
  · rintro ⟨⟨hfound, hfile, hlisted, hentered⟩, hwanted⟩
    exact ⟨_, _, hfound, _, _, rfl, hfile, hwanted, hlisted, hentered⟩

/-- Where there is room for the walk, a search for all extensions of a registry finds just the files
that the walk comes by and that have a server, each of them once. Where there is none, the search
breaks off. -/
theorem found_files_are_served (m : Machine) (hm : m.files.HasDistinctNames) (directory : Path)
    (hdirectory : IsPathText directory.text) (ignored : List LooseText)
    (entries : List ServerOverride) (hentries : ∀ entry ∈ entries, entry.IsAccepted) :
    (m.HasRoom (.of (Registry.ofOverrides entries).extensions ignored) directory →
      ∃ files, Comes (findFiles directory (.of (Registry.ofOverrides entries).extensions ignored)) m
          (.ok files) m ∧ files.Nodup ∧
        ∀ path, path ∈ files ↔ (∃ names, directory.below names = path ∧
            m.ComesBy ignored directory names) ∧
          ((Registry.ofOverrides entries).forFile? path).isSome) ∧
    (¬m.HasRoom (.of (Registry.ofOverrides entries).extensions ignored) directory →
      Comes (findFiles directory (.of (Registry.ofOverrides entries).extensions ignored)) m
        (.error .tooDeep) m) := by
  have hkept := Registry.keepsExtensions_ofOverrides hentries
  generalize Registry.ofOverrides entries = registry at hkept
  refine ⟨fun hroom => ?_, fun hnone =>
    comes_findFiles_error (sightings_of_not_hasRoom hnone hm hdirectory)⟩
  obtain ⟨met, hmet⟩ := hroom.exists_sightings hm hdirectory
  obtain ⟨found, h⟩ := exists_meets (hasDistinctNames_of_find hm _) hmet
  refine ⟨found.map directory.below, ?_, ?_, fun path => ?_⟩
  · rw [← h.files]
    exact comes_findFiles hmet
  · exact List.pairwise_map.2 ((nodup_of_ordered h.ordered).imp
      fun hne heq => hne (directory.below_injective _ _ heq))
  · rw [List.mem_map]
    constructor
    · rintro ⟨names, hnames, rfl⟩
      obtain ⟨hway, hwanted⟩ := finds_iff.1 ((h.exact names).1 hnames)
      exact ⟨⟨names, rfl, hway⟩, (hkept.isSome_forFile?_iff _).2 hwanted⟩
    · rintro ⟨⟨names, rfl, hway⟩, hserved⟩
      exact ⟨names, (h.exact names).2 (finds_iff.2 ⟨hway, (hkept.isSome_forFile?_iff _).1 hserved⟩),
        rfl⟩

def lettered : Machine where
  files := .directory
    [("docs", .directory [("ΟΔΟΣ.ΛΌΓΟΣ", .file [])]), ("notes.txt", .file [])]
  workingDirectory := []

def greekServer : ServerOverride := { name := "greek", extensions := [".λόγος"] }

theorem isAccepted_greekServer : greekServer.IsAccepted := by
  have hnormal : ServerOverride.normalizeExtension "ΛΌΓΟΣ" = ".λόγος" := by decide +kernel
  have hmade : ServerOverride.ofFields
      [("name", .string "greek"), ("extensions", .array [.string "ΛΌΓΟΣ"])] =
        .valid { name := "greek", extensions := [ServerOverride.normalizeExtension "ΛΌΓΟΣ"] } := rfl
  rw [hnormal] at hmade
  exact ⟨_, hmade⟩

/-- The file of the Greek extension is found, and the one that no server is for is not. -/
theorem found_files_are_served_greek :
    (∀ entry ∈ [greekServer], entry.IsAccepted) ∧ ∃ files,
      Comes (findFiles (.ofText "/") (.of (Registry.ofOverrides [greekServer]).extensions []))
        lettered (.ok files) lettered ∧
      .ofText "/docs/ΟΔΟΣ.ΛΌΓΟΣ" ∈ files ∧ .ofText "/notes.txt" ∉ files := by
  have hdistinct : lettered.files.HasDistinctNames := by
    refine .directory (by decide) ?_
    simp only [List.forall_mem_cons, List.not_mem_nil, false_imp_iff, implies_true, and_true]
    exact ⟨.directory (by decide) (List.forall_mem_singleton.2 (.file _)), .file _⟩
  have haccepted : ∀ entry ∈ [greekServer], entry.IsAccepted :=
    List.forall_mem_singleton.2 isAccepted_greekServer
  have htop : IsPathText (Path.ofText "/").text := isPathText_ofString (s := "/") (by decide)
  have hsorted : lettered.files.sorted = lettered.files := by
    simp +decide [lettered, Node.sorted, Node.sortedEntries, List.mergeSort,
      List.MergeSort.Internal.splitInTwo]
  have hmet : lettered.encounters (.of [] []) (.ofText "/") =
      .ok (lettered.sight (.of [] []) 960 (.ofText "/") [] lettered.files) :=
    congrArg (fun node => Except.ok (lettered.sight _ 960 _ [] node)) hsorted
  have hroom : lettered.HasRoom (.of (Registry.ofOverrides [greekServer]).extensions [])
      (.ofText "/") :=
    .of_ignored (hasRoom_of_sightings hdistinct (sightings_of_notMem hmet (by decide)))
      (by simp only [Search.of])
  obtain ⟨files, hfound, -, hexact⟩ := (found_files_are_served lettered hdistinct (.ofText "/")
    htop [] [greekServer] haccepted).1 hroom
  have hway : lettered.ComesBy [] (.ofText "/")
      ([("docs" : LooseText)] ++ [("ΟΔΟΣ.ΛΌΓΟΣ" : LooseText)]) := by
    have hfound : lettered.find (Path.ofText "/").text = .ok ([], lettered.files) := rfl
    have hfile : lettered.files.at? ([("docs" : LooseText)] ++ [("ΟΔΟΣ.ΛΌΓΟΣ" : LooseText)]) =
        some (.file []) := by
      simp [lettered, Node.at?, Node.entry?, Members.get?]
    refine .through hfound ⟨_, hfile, .file []⟩ ?_ fun _ _ => List.not_mem_nil
    intro before hbefore
    obtain rfl | ⟨rest, rfl, hrest⟩ := List.prefix_cons_iff.1 hbefore
    · exact ⟨⟨_, rfl⟩, by decide, List.not_mem_nil⟩
    · obtain rfl := List.prefix_nil.1 hrest
      exact ⟨⟨_, rfl⟩, by decide, List.not_mem_nil⟩
  refine ⟨haccepted, files, hfound, ?_, ?_⟩
  · exact (hexact _).2 ⟨⟨_, by decide, hway⟩, by decide +kernel⟩
  · intro hmem
    exact absurd ((hexact _).1 hmem).2 (by decide +kernel)

end Machine

end ProjectCheck
