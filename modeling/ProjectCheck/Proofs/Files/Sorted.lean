import ProjectCheck.Discovery
import ProjectCheck.Proofs.Json.Members
import ProjectCheck.Proofs.Text.Loose

/-!
Trees in order. When the entries of every directory have different names, they can be put in the
order of their names, and names lead to the same as before.
-/
namespace ProjectCheck

namespace Node

inductive HasDistinctNames : Node → Prop
  | file (content : Bytes) : HasDistinctNames (.file content)
  | link (target : LooseText) : HasDistinctNames (.link target)
  | directory {entries : List (LooseText × Node)} (hdistinct : (Members.names entries).Nodup)
      (hentries : ∀ entry ∈ entries, HasDistinctNames entry.2) :
      HasDistinctNames (.directory entries)

inductive IsSorted : Node → Prop
  | file (content : Bytes) : IsSorted (.file content)
  | link (target : LooseText) : IsSorted (.link target)
  | directory {entries : List (LooseText × Node)}
      (hsorted : entries.Pairwise fun entry other => entry.1 < other.1)
      (hentries : ∀ entry ∈ entries, IsSorted entry.2) : IsSorted (.directory entries)

theorem HasDistinctNames.at? {node found : Node} (h : node.HasDistinctNames)
    {names : List LooseText}
    (hfound : node.at? names = some found) : found.HasDistinctNames := by
  induction names generalizing node with
  | nil => exact Option.some.inj hfound ▸ h
  | cons name rest ih =>
    obtain ⟨next, hnext, hrest⟩ := Option.bind_eq_some_iff.1 hfound
    cases h with
    | file content => cases hnext
    | link target => cases hnext
    | directory hdistinct hentries => exact ih (hentries _ (Members.mem_of_get? hnext)) hrest

theorem at?_cons {entries : List (LooseText × Node)} {name : LooseText} {entry : Node}
    (h : Members.get? name entries = some entry) (rest : List LooseText) :
    (directory entries).at? (name :: rest) = entry.at? rest := by
  rw [Node.at?, entry?, h, Option.bind_some]

/-! Trees with their entries in order. -/

theorem sortedEntries_eq_map (entries : List (LooseText × Node)) :
    sortedEntries entries = entries.map (Prod.map id Node.sorted) := by
  induction entries with
  | nil => rfl
  | cons entry rest ih =>
    obtain ⟨name, node⟩ := entry
    rw [sortedEntries, ih, List.map_cons]
    rfl

theorem mergeSort_perm (entries : List (LooseText × Node)) :
    ((sortedEntries entries).mergeSort fun a b => decide (a.1 ≤ b.1)).Perm
      (entries.map (Prod.map id Node.sorted)) := by
  rw [← sortedEntries_eq_map]
  exact List.mergeSort_perm _ _

theorem mergeSort_pairwise {entries : List (LooseText × Node)}
    (hdistinct : (Members.names entries).Nodup) :
    ((sortedEntries entries).mergeSort fun a b => decide (a.1 ≤ b.1)).Pairwise
      fun entry other => entry.1 < other.1 := by
  have hnames : (Members.names (entries.map (Prod.map id Node.sorted))).Nodup := by
    rw [Members.names_map]
    exact hdistinct
  have hne := List.pairwise_map.1 (((mergeSort_perm entries).map Prod.fst).nodup_iff.2 hnames)
  have hle := List.pairwise_mergeSort
    (fun (a b c : LooseText × Node) (hab : decide (a.1 ≤ b.1) = true) hbc =>
      decide_eq_true (List.le_trans (of_decide_eq_true hab) (of_decide_eq_true hbc)))
    (fun a b => by simpa using List.le_total a.1 b.1) (sortedEntries entries)
  refine (hle.and hne).imp fun ⟨hle, hne⟩ => List.not_le.1 fun hge => hne ?_
  exact List.le_antisymm (of_decide_eq_true hle) hge

theorem HasDistinctNames.sorted {node : Node} (h : node.HasDistinctNames) :
    node.sorted.IsSorted := by
  induction h with
  | file content => exact .file content
  | link target => exact .link target
  | @directory entries hdistinct hentries ih =>
    rw [Node.sorted]
    refine .directory (mergeSort_pairwise hdistinct) fun entry hentry => ?_
    obtain ⟨before, hbefore, rfl⟩ := List.mem_map.1 ((mergeSort_perm entries).mem_iff.1 hentry)
    exact ih before hbefore

theorem nodup_names_of_pairwise {entries : List (LooseText × Node)}
    (h : entries.Pairwise fun entry other => entry.1 < other.1) :
    (Members.names entries).Nodup :=
  List.pairwise_map.2 (h.imp LooseText.ne_of_lt)

theorem HasDistinctNames.entry?_sorted {node : Node} (h : node.HasDistinctNames)
    (name : LooseText) :
    node.sorted.entry? name = (node.entry? name).map Node.sorted := by
  cases h with
  | file content => rfl
  | link target => rfl
  | @directory entries hdistinct hentries =>
    have hsorted := nodup_names_of_pairwise (mergeSort_pairwise hdistinct)
    have hmem := fun entry => (mergeSort_perm entries).mem_iff (a := entry)
    rw [Node.sorted, entry?, entry?]
    cases hget : Members.get? name entries with
    | none =>
      rw [Members.get?_eq_none_iff] at hget
      have hnames : name ∉ Members.names (entries.map (Prod.map id Node.sorted)) := by
        rw [Members.names_map]
        exact hget
      exact Members.get?_eq_none_iff.2 fun hin =>
        hnames (((mergeSort_perm entries).map Prod.fst).mem_iff.1 hin)
    | some found =>
      refine Members.get?_of_mem hsorted ((hmem _).2 ?_)
      exact List.mem_map.2 ⟨_, Members.mem_of_get? hget, rfl⟩

/-- In a tree in order the same names lead to the same, in order. -/
theorem HasDistinctNames.at?_sorted {node : Node} (h : node.HasDistinctNames)
    (names : List LooseText) : node.sorted.at? names = (node.at? names).map Node.sorted := by
  induction names generalizing node with
  | nil => rfl
  | cons name rest ih =>
    rw [Node.at?, Node.at?, h.entry?_sorted]
    cases hnext : node.entry? name with
    | none => rfl
    | some next =>
      have hat : node.at? [name] = some next := by
        rw [Node.at?, hnext]
        rfl
      exact ih (h.at? hat)

end Node

end ProjectCheck
