import ProjectCheck.Proofs.FirstOccurrences
import ProjectCheck.Proofs.Json.Members
import ProjectCheck.Server.Registry

/-!
Registries and the changes that are made to them. Whatever is registered, taken away and overridden,
each key has one server, the extensions are those of the servers that are there, and a file goes to
the first server that lists its extension. A server that is registered again stands where it stood,
so that the others stay in their order.
-/
namespace ProjectCheck

namespace Registry

variable {registry : Registry} {spec : ServerSpec} {path : Path}

/-! Keys. -/

structure IsKeyed (registry : Registry) : Prop where
  keys : ∀ entry ∈ registry.entries, entry.2.key = entry.1
  nodup : registry.entries.names.Nodup

namespace IsKeyed

theorem register (h : registry.IsKeyed) (spec : ServerSpec) : (registry.register spec).IsKeyed where
  keys entry hmem := by
    rcases Members.mem_set hmem with rfl | hmem
    · rfl
    · exact h.keys entry hmem
  nodup := Members.nodup_set h.nodup _ _

theorem unregister (h : registry.IsKeyed) (key : LooseText) :
    (registry.unregister key).IsKeyed where
  keys entry hmem := h.keys entry (List.mem_filter.1 hmem).1
  nodup := Members.nodup_erase h.nodup key

theorem applyOverride (h : registry.IsKeyed) (entry : ServerOverride) :
    (registry.applyOverride entry).IsKeyed := by
  unfold Registry.applyOverride
  split
  · exact h.register _
  · exact h.unregister _

theorem keys_eq (h : registry.IsKeyed) : registry.keys = registry.entries.names := by
  rw [Registry.keys, servers, List.map_map]
  exact List.map_congr_left h.keys

end IsKeyed

theorem isKeyed_empty : empty.IsKeyed := ⟨nofun, List.nodup_nil⟩

theorem isKeyed_ofSpecs (specs : List ServerSpec) : (ofSpecs specs).IsKeyed :=
  List.foldlRecOn specs register (motive := IsKeyed) isKeyed_empty fun _ h spec _ => h.register spec

theorem isKeyed_ofOverrides (entries : List ServerOverride) : (ofOverrides entries).IsKeyed :=
  List.foldlRecOn entries applyOverride (motive := IsKeyed) (isKeyed_ofSpecs _)
    fun _ h entry _ => h.applyOverride entry

/-! Changes. -/

inductive Change where
  | register (spec : ServerSpec)
  | unregister (key : LooseText)
  | override (entry : ServerOverride)

def change (registry : Registry) : Change → Registry
  | .register spec => registry.register spec
  | .unregister key => registry.unregister key
  | .override entry => registry.applyOverride entry

theorem IsKeyed.change (h : registry.IsKeyed) : ∀ c : Change, (registry.change c).IsKeyed
  | .register spec => h.register spec
  | .unregister key => h.unregister key
  | .override entry => h.applyOverride entry

theorem IsKeyed.changes (h : registry.IsKeyed) (changes : List Change) :
    (changes.foldl Registry.change registry).IsKeyed :=
  List.foldlRecOn changes Registry.change (motive := IsKeyed) h fun _ h c _ => h.change c

/-! The servers of files. -/

theorem mem_extensions {extension : LooseText} :
    extension ∈ registry.extensions ↔ ∃ spec ∈ registry.servers, extension ∈ spec.extensions := by
  rw [extensions, List.mem_eraseDups, List.mem_flatMap]

/-- A file goes to the first server that lists its extension. -/
theorem forFile?_eq_some_iff : registry.forFile? path = some spec ↔
    path.extension ≠ [] ∧ path.extension ∈ spec.extensions ∧ ∃ before after,
      registry.servers = before ++ spec :: after ∧
        ∀ other ∈ before, path.extension ∉ other.extensions := by
  simp only [forFile?]
  split
  · rename_i hnone
    simp [hnone]
  · rename_i hsome
    simp [hsome, List.find?_eq_some_iff_append]

theorem isSome_forFile?_iff : (registry.forFile? path).isSome ↔
    path.extension ≠ [] ∧ path.extension ∈ registry.extensions := by
  simp only [forFile?]
  split
  · rename_i hnone
    simp [hnone]
  · rename_i hsome
    simp [hsome, List.find?_isSome, mem_extensions]

/-- The server of a file is the one that its key has. -/
theorem IsKeyed.get?_of_forFile? (h : registry.IsKeyed)
    (hfound : registry.forFile? path = some spec) :
    registry.get? spec.key = some spec := by
  obtain ⟨-, -, before, after, hservers, -⟩ := forFile?_eq_some_iff.1 hfound
  have hmem : spec ∈ registry.servers := by simp [hservers]
  obtain ⟨⟨name, server⟩, hentry, rfl⟩ := List.mem_map.1 hmem
  rw [h.keys _ hentry]
  exact Members.get?_of_mem h.nodup hentry

/-! Registering again. -/

theorem get?_ne_none_iff {key : LooseText} :
    registry.get? key ≠ none ↔ key ∈ registry.entries.names := by
  rw [get?, Ne, Members.get?_eq_none_iff, Decidable.not_not]

/-- A server whose key is there takes the place of the server that the key had. -/
theorem IsKeyed.exists_replaced (h : registry.IsKeyed) (hpresent : registry.get? spec.key ≠ none) :
    ∃ before old after, old.key = spec.key ∧ registry.servers = before ++ old :: after ∧
      (registry.register spec).servers = before ++ spec :: after := by
  obtain ⟨before, old, after, hentries, hset⟩ :=
    Members.exists_set_eq (get?_ne_none_iff.1 hpresent) spec
  have hkey : old.key = spec.key := h.keys (spec.key, old) (by simp [hentries])
  refine ⟨before.map Prod.snd, old, after.map Prod.snd, hkey, ?_, ?_⟩
  · rw [servers, hentries, List.map_append, List.map_cons]
  · rw [servers, Registry.register, hset, List.map_append, List.map_cons]

/-- Which of two servers has the files with an extension, if it is between them: the first of the
two that lists it. -/
def winner? (registry : Registry) (extension : LooseText) (first second : ServerSpec) :
    Option ServerSpec :=
  registry.servers.find? fun spec =>
    (spec = first ∨ spec = second) ∧ extension ∈ spec.extensions

/-- Between other servers nothing changes when a server is registered again. -/
theorem IsKeyed.winner?_register (h : registry.IsKeyed)
    (hpresent : registry.get? spec.key ≠ none) {first second : ServerSpec}
    (hfirst : first.key ≠ spec.key) (hsecond : second.key ≠ spec.key) (extension : LooseText) :
    (registry.register spec).winner? extension first second =
      registry.winner? extension first second := by
  obtain ⟨before, old, after, hold, hservers, hregistered⟩ := h.exists_replaced hpresent
  have hpassed : ∀ other : ServerSpec, other.key = spec.key →
      ¬((other = first ∨ other = second) ∧ extension ∈ other.extensions) := by
    rintro other hother ⟨rfl | rfl, -⟩
    · exact hfirst hother
    · exact hsecond hother
  rw [winner?, winner?, hservers, hregistered, List.find?_append, List.find?_append,
    List.find?_cons_of_neg (by simpa using hpassed spec rfl),
    List.find?_cons_of_neg (by simpa using hpassed old hold)]

/-- The server that has a file has it against any other. -/
theorem winner?_of_forFile? {winner : ServerSpec} (h : registry.forFile? path = some winner)
    (other : ServerSpec) : registry.winner? path.extension winner other = some winner ∧
      registry.winner? path.extension other winner = some winner := by
  obtain ⟨-, hlists, before, after, hservers, hbefore⟩ := forFile?_eq_some_iff.1 h
  have hwins : ∀ {first second : ServerSpec}, winner = first ∨ winner = second →
      registry.winner? path.extension first second = some winner := by
    intro first second hwinner
    refine List.find?_eq_some_iff_append.2 ⟨by simp [hlists, hwinner], before, after, hservers, ?_⟩
    intro spec hspec
    simp [hbefore spec hspec]
  exact ⟨hwins (.inl rfl), hwins (.inr rfl)⟩

structure IsOrderly (registry : Registry) : Prop where
  keyed : registry.IsKeyed
  extensions_nodup : registry.extensions.Nodup
  extensions_exact : ∀ extension, extension ∈ registry.extensions ↔
    ∃ spec ∈ registry.servers, extension ∈ spec.extensions
  extensions_ordered : registry.extensions.Pairwise fun extension later =>
    (registry.servers.flatMap (·.extensions)).idxOf extension <
      (registry.servers.flatMap (·.extensions)).idxOf later
  served_iff : ∀ path, (registry.forFile? path).isSome ↔
    path.extension ≠ [] ∧ path.extension ∈ registry.extensions
  served_by_first : ∀ path spec, registry.forFile? path = some spec →
    path.extension ∈ spec.extensions ∧ ∃ before after,
      registry.servers = before ++ spec :: after ∧
        ∀ other ∈ before, path.extension ∉ other.extensions
  rivals_kept : ∀ spec, registry.get? spec.key ≠ none → ∀ first second : ServerSpec,
    first.key ≠ spec.key → second.key ≠ spec.key →
      (∀ extension, (registry.register spec).winner? extension first second =
        registry.winner? extension first second) ∧
      ∀ path, registry.forFile? path = some first →
        (registry.register spec).forFile? path = some second → first = second

/-- Whatever is made of a registry, it stands by the order of its servers. -/
theorem isOrderly_after_changes (specs : List ServerSpec) (changes : List Change) :
    (changes.foldl change (ofSpecs specs)).IsOrderly := by
  have hkeyed := (isKeyed_ofSpecs specs).changes changes
  generalize changes.foldl change (ofSpecs specs) = registry at hkeyed
  refine ⟨hkeyed, nodup_eraseDups _, fun _ => mem_extensions, pairwise_eraseDups _,
    fun _ => isSome_forFile?_iff, fun path spec hfound => (forFile?_eq_some_iff.1 hfound).2, ?_⟩
  intro spec hpresent first second hfirst hsecond
  have hkept := hkeyed.winner?_register hpresent hfirst hsecond
  refine ⟨hkept, fun path hbefore hafter => ?_⟩
  have hwinner := (winner?_of_forFile? hbefore second).1
  rw [← hkept, (winner?_of_forFile? hafter first).2] at hwinner
  exact (Option.some.inj hwinner).symm

end Registry

end ProjectCheck
