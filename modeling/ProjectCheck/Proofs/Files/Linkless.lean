import ProjectCheck.Proofs.Walks
import ProjectCheck.ProjectRoot

/-!
Directories without links. Every entry has a name of its own, and no entry is a link. The files that
are found in such a directory are found once, by the names that lead to them.
-/
namespace ProjectCheck

inductive Node.IsLinkless : Node → Prop
  | file (content : Bytes) : IsLinkless (Node.file content)
  | directory {entries : List (LooseText × Node)} (hnames : ∀ entry ∈ entries, IsName entry.1)
      (hdistinct : (entries.map Prod.fst).Nodup)
      (hentries : ∀ entry ∈ entries, IsLinkless entry.2) : IsLinkless (Node.directory entries)

namespace Node

/-- Nothing below is a link. -/
theorem IsLinkless.at?_ne_link {node : Node} (h : node.IsLinkless) (names : List LooseText)
    (target : LooseText) : node.at? names ≠ some (.link target) := by
  induction names generalizing node with
  | nil =>
    intro hlink
    obtain rfl := Option.some.inj hlink
    cases h
  | cons name rest ih =>
    intro hlink
    rw [at?] at hlink
    obtain ⟨next, hnext, hrest⟩ := Option.bind_eq_some_iff.1 hlink
    cases h with
    | file content => cases hnext
    | directory hnames hdistinct hentries =>
      exact ih (hentries _ (Members.mem_of_get? hnext)) hrest

theorem IsLinkless.hasDistinctNames {node : Node} (h : node.IsLinkless) :
    node.HasDistinctNames := by
  induction h with
  | file content => exact .file content
  | directory hnames hdistinct hentries ih => exact .directory hdistinct ih

/-- What leads to something below are names. -/
theorem IsLinkless.isName {node found : Node} (h : node.IsLinkless) {names : List LooseText}
    (hfound : node.at? names = some found) : ∀ name ∈ names, IsName name := by
  induction names generalizing node with
  | nil => nofun
  | cons name rest ih =>
    obtain ⟨next, hnext, hrest⟩ := Option.bind_eq_some_iff.1 hfound
    cases h with
    | file content => cases hnext
    | directory hnames hdistinct hentries =>
      have hmem := Members.mem_of_get? hnext
      exact List.forall_mem_cons.2 ⟨hnames _ hmem, ih (hentries _ hmem) hrest⟩

end Node

def Sighting.AreReadApart (met : List Sighting) : Prop :=
  ∀ path other, .file path ∈ met → .file other ∈ met → path.reading = other.reading → path = other

namespace Machine

/-- Below the directory that a path leads to there are no links. The names of the working directory
are those of a place. -/
structure HasNoLinks (m : Machine) (directory : Path) : Prop where
  start : ∀ name ∈ m.workingDirectory, name ≠ "." ∧ name ≠ ".."
  linkless : ∀ place node, m.find directory.text = .ok (place, node) → node.IsLinkless

/-- In a directory without links, files that are read as different paths have URIs of different
keys. -/
theorem HasNoLinks.pairwise {m : Machine} {directory : Path} (h : m.HasNoLinks directory)
    {search : Search} {met : List Sighting} (hmet : m.sightings search directory = .ok met)
    (hread : Sighting.AreReadApart met) :
    (met.filterMap Sighting.file?).Pairwise fun path other => ∀ uri otherUri,
      m.uriOf path = .ok uri → m.uriOf other = .ok otherUri → Uri.key uri ≠ Uri.key otherUri := by
  obtain ⟨found, hmeets⟩ :=
    exists_meets (fun place node hfound => (h.linkless place node hfound).hasDistinctNames) hmet
  have hsteps : ∀ names ∈ found, AreSteps names := by
    intro names hnames
    obtain ⟨place, node, hfound, way, name, rfl, hreaches⟩ := (hmeets.exact names).1 hnames
    obtain ⟨entry, hentry, -⟩ := hreaches.isFile
    exact ⟨by simp, (h.linkless place node hfound).isName hentry⟩
  have hfile : ∀ names ∈ found, .file (directory.below names) ∈ met := by
    intro names hnames
    rw [← Sighting.mem_filterMap_file?, hmeets.files]
    exact List.mem_map_of_mem hnames
  rw [hmeets.files, List.pairwise_map]
  refine (nodup_of_ordered hmeets.ordered).imp_of_mem
    fun {names other} hnames hother hne uri otherUri huri hotherUri hkey => hne ?_
  obtain ⟨place, node, hfound, -⟩ := (hmeets.exact names).1 hnames
  have hsame := hread _ _ (hfile names hnames) (hfile other hother) <|
    reading_eq_of_key h.start hfound (h.linkless place node hfound).at?_ne_link
      (hsteps names hnames) (hsteps other hother) huri hotherUri hkey
  exact Path.text_below_injective (hsteps names hnames) (hsteps other hother)
    (congrArg Path.text hsame)

end Machine

/-! Places. -/

namespace Node

/-- A place is its own real path. -/
theorem IsLinkless.realPath_ofLocation {files : Node} (h : files.IsLinkless)
    (start : List LooseText)
    {names : List LooseText} (hnames : AreSteps names) :
    files.realPath start (Path.ofLocation names).text = .ofLocation names :=
  realPath_of_unlinked Nat.one_ne_zero hnames.names fun way _ target => h.at?_ne_link way target

end Node

namespace Machine

variable {m : Machine}

/-- What is found at its own real path is resolved to it. -/
theorem resolve_of_find {path : Path} {found : List LooseText × Node}
    (hreal : m.files.realPath m.workingDirectory path.text = path)
    (hfound : m.find path.text = .ok found) : m.resolve path = .ok path := by
  have hencodable : (!path.text.isEncodable) = false := by
    rw [Bool.eq_false_iff]
    intro hencodable
    rw [find, Node.lookup, Node.locate, if_pos hencodable] at hfound
    split at hfound <;> cases hfound
  have hzero : path.text.contains (.char '\x00') = false := by
    rw [Bool.eq_false_iff]
    intro hzero
    rw [find, Node.lookup, Node.locate, if_neg (Bool.eq_false_iff.1 hencodable),
      if_pos hzero] at hfound
    split at hfound <;> cases hfound
  rw [resolve, if_neg (Bool.eq_false_iff.1 hencodable), if_neg (Bool.eq_false_iff.1 hzero), hreal]
  simp only [hfound]

theorem uriOf_of_find {path : Path} {found : List LooseText × Node}
    (hreal : m.files.realPath m.workingDirectory path.text = path)
    (hfound : m.find path.text = .ok found) : m.uriOf path = .ok (Uri.ofPath path) := by
  rw [uriOf, resolve_of_find hreal hfound]
  rfl

/-- A file of the top directory is in the project of the top directory. -/
theorem findProjectRoot_top {name : LooseText} (markers : List LooseText)
    (hfile : m.holdsDirectory (.ofLocation [name]) = .ok false) :
    findProjectRoot m (.ofLocation [name]) markers = .ok (Uri.ofPath (.ofLocation [])) := by
  have hparent : (Path.ofLocation [name]).parent = .ofLocation [] := rfl
  have hroot : nearestRoot m markers (.ofLocation []) = .ofLocation [] := by
    have htop : (Path.ofLocation []).parent = .ofLocation [] := rfl
    rw [nearestRoot, rootDepth, ancestors, if_pos htop, List.find?_singleton]
    split <;> rfl
  have hfound : m.find (Path.ofLocation []).text = .ok ([], m.files) := rfl
  have huri : m.uriOf (.ofLocation []) = .ok (Uri.ofPath (.ofLocation [])) :=
    uriOf_of_find (m.files.realPath_root m.workingDirectory) hfound
  rw [findProjectRoot, hfile]
  simp only [bind, Except.bind, Bool.false_eq_true, ↓reduceIte, hparent, hroot]
  exact huri

end Machine
end ProjectCheck
