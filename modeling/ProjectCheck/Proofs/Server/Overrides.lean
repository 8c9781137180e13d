import ProjectCheck.Proofs.Server.Registries

/-!
Overridden servers, key by key. What a key has in the end comes from the server that is known for it
and from the entries of its name, one after the other; entries of other names do not matter to it.
The servers stand in the order in which their keys were last added.
-/
namespace ProjectCheck

/-- What an entry makes of the server that its key has, if it has one. A field that the entry leaves
empty is taken from that server, and the name always is. -/
def ServerOverride.outcome (entry : ServerOverride) (current : Option ServerSpec) :
    Option ServerSpec :=
  if entry.enabled then some {
    key := entry.name
    name := (current.map (·.name)).getD entry.name
    command :=
      if entry.command ≠ [] then entry.command else (current.map (·.command)).getD entry.name
    args := if entry.args ≠ [] then entry.args else (current.map (·.args)).getD []
    extensions :=
      if entry.extensions ≠ [] then entry.extensions else (current.map (·.extensions)).getD []
    installHint :=
      if entry.installHint ≠ [] then entry.installHint
      else (current.map (·.installHint)).getD [] }
  else none

namespace Registry

variable {registry : Registry} {entry : ServerOverride} {key other : LooseText}

/-! What a key has. -/

theorem get?_register_self (registry : Registry) (spec : ServerSpec) :
    (registry.register spec).get? spec.key = some spec :=
  Members.get?_set_self ..

theorem get?_register_of_ne {spec : ServerSpec} (h : key ≠ spec.key) :
    (registry.register spec).get? key = registry.get? key :=
  Members.get?_set_of_ne h ..

theorem get?_unregister_self (registry : Registry) (key : LooseText) :
    (registry.unregister key).get? key = none :=
  Members.get?_erase_self ..

theorem get?_unregister_of_ne (h : key ≠ other) :
    (registry.unregister other).get? key = registry.get? key :=
  Members.get?_erase_of_ne h ..

theorem overridden_key (entry : ServerOverride) (current : Option ServerSpec) :
    (overridden entry current).key = entry.name := by
  cases current <;> rfl

theorem outcome_of_enabled (h : entry.enabled = true) (current : Option ServerSpec) :
    entry.outcome current = some (overridden entry current) := by
  rw [ServerOverride.outcome, if_pos h]
  cases current with
  | none => simp [overridden]
  | some server => simp [overridden]

theorem get?_applyOverride_self (registry : Registry) (entry : ServerOverride) :
    (registry.applyOverride entry).get? entry.name =
      entry.outcome (registry.get? entry.name) := by
  rw [applyOverride]
  split
  · rename_i henabled
    have hself := registry.get?_register_self (overridden entry (registry.get? entry.name))
    rwa [overridden_key, ← outcome_of_enabled henabled] at hself
  · rename_i hdisabled
    rw [get?_unregister_self, ServerOverride.outcome, if_neg hdisabled]

theorem get?_applyOverride_of_ne (h : key ≠ entry.name) :
    (registry.applyOverride entry).get? key = registry.get? key := by
  rw [applyOverride]
  split
  · exact get?_register_of_ne (by rwa [overridden_key])
  · exact get?_unregister_of_ne h

/-- Only the entries of its name matter to a key. -/
theorem get?_overrides (registry : Registry) (entries : List ServerOverride) (key : LooseText) :
    (entries.foldl applyOverride registry).get? key =
      (entries.filter (·.name = key)).foldl (fun current entry => entry.outcome current)
        (registry.get? key) := by
  induction entries generalizing registry with
  | nil => rfl
  | cons entry rest ih =>
    rw [List.foldl_cons, ih]
    by_cases h : entry.name = key
    · subst h
      rw [List.filter_cons_of_pos (by simp), List.foldl_cons, get?_applyOverride_self]
    · rw [List.filter_cons_of_neg (by simpa using h), get?_applyOverride_of_ne (Ne.symm h)]

/-! What the known servers are. -/

theorem entries_ofSpecs {specs : List ServerSpec} (h : (specs.map (·.key)).Nodup) :
    (ofSpecs specs).entries = specs.map fun spec => (spec.key, spec) := by
  induction specs using List.reverseRecOn with
  | nil => rfl
  | append_singleton specs last ih =>
    rw [List.map_append, List.map_singleton, List.nodup_append] at h
    obtain ⟨hspecs, -, hlast⟩ := h
    have hnew : last.key ∉ (ofSpecs specs).entries.names := by
      rw [ih hspecs, Members.names, List.map_map]
      exact fun hmem => hlast _ hmem _ (List.mem_singleton_self _) rfl
    have hregistered : (ofSpecs (specs ++ [last])).entries =
        (ofSpecs specs).entries.set last.key last := by
      rw [ofSpecs, List.foldl_append]
      rfl
    rw [hregistered, Members.set_of_not_mem hnew, ih hspecs, List.map_append, List.map_singleton]

theorem get?_keyed (specs : List ServerSpec) (key : LooseText) :
    Members.get? key (specs.map fun spec => (spec.key, spec)) =
      specs.find? fun spec => spec.key = key := by
  induction specs with
  | nil => rfl
  | cons spec rest ih =>
    by_cases h : spec.key = key
    · simp [Members.get?, h]
    · simp [Members.get?, h, ih]

theorem get?_builtin (key : LooseText) :
    builtin.get? key = builtinServers.find? fun spec => spec.key = key := by
  rw [get?, builtin, entries_ofSpecs (by decide), get?_keyed]

/-! The order of the keys. -/

def reached (history : List Change) : Registry := history.foldl change empty

theorem reached_concat (history : List Change) (c : Change) :
    reached (history ++ [c]) = (reached history).change c := by
  rw [reached, List.foldl_append]
  rfl

theorem isKeyed_reached (history : List Change) : (reached history).IsKeyed :=
  isKeyed_empty.changes history

/-- The key was added by the change at a place: it was absent before that change and has been there
ever since. -/
structure IsAddedAt (history : List Change) (key : LooseText) (place : Nat) : Prop where
  within : place < history.length
  absent : (reached (history.take place)).get? key = none
  present : ∀ later, place < later → later ≤ history.length →
    (reached (history.take later)).get? key ≠ none

theorem IsKeyed.mem_keys_iff (h : registry.IsKeyed) :
    key ∈ registry.keys ↔ registry.get? key ≠ none := by
  rw [h.keys_eq, get?_ne_none_iff]

theorem IsKeyed.nodup_keys (h : registry.IsKeyed) : registry.keys.Nodup := by
  rw [h.keys_eq]
  exact h.nodup

/-- A change leaves the keys that stay in their order, and adds at most one, at the end. -/
theorem IsKeyed.keys_change (h : registry.IsKeyed) (c : Change) :
    (registry.change c).keys.Sublist registry.keys ∨
      ∃ added, registry.get? added = none ∧
        (registry.change c).keys = registry.keys ++ [added] := by
  have hregister : ∀ spec : ServerSpec, (registry.register spec).keys.Sublist registry.keys ∨
      ∃ added, registry.get? added = none ∧
        (registry.register spec).keys = registry.keys ++ [added] := by
    intro spec
    have hnames : (registry.register spec).entries.names = _ :=
      Members.names_set spec.key spec registry.entries
    rw [(h.register spec).keys_eq, h.keys_eq, hnames]
    split
    · exact .inl (List.Sublist.refl _)
    · rename_i habsent
      exact .inr ⟨spec.key, Members.get?_eq_none_iff.2 habsent, rfl⟩
  have hunregister : ∀ key, (registry.unregister key).keys.Sublist registry.keys := by
    intro key
    rw [(h.unregister key).keys_eq, h.keys_eq]
    exact List.filter_sublist.map Prod.fst
  cases c with
  | register spec => exact hregister spec
  | unregister key => exact .inl (hunregister key)
  | override entry =>
    rw [Registry.change, Registry.applyOverride]
    split
    · exact hregister _
    · exact .inl (hunregister _)

variable {history : List Change} {c : Change} {place : Nat}

/-- A key that was there before the last change and is still there was added where it was. -/
theorem isAddedAt_concat_iff (hbefore : (reached history).get? key ≠ none)
    (hafter : (reached (history ++ [c])).get? key ≠ none) :
    IsAddedAt (history ++ [c]) key place ↔ IsAddedAt history key place := by
  have htake : ∀ n, n ≤ history.length → (history ++ [c]).take n = history.take n :=
    fun n hn => List.take_append_of_le_length hn
  have hlength : (history ++ [c]).length = history.length + 1 := List.length_append
  constructor
  · intro h
    have hplace : place ≠ history.length := by
      rintro rfl
      have habsent := h.absent
      rw [htake _ (Nat.le_refl _), List.take_length] at habsent
      exact hbefore habsent
    have hwithin : place < history.length := by
      have := h.within
      omega
    refine ⟨hwithin, ?_, fun later hlater hle => ?_⟩
    · rw [← htake place (Nat.le_of_lt hwithin)]
      exact h.absent
    · rw [← htake later hle]
      exact h.present later hlater (by omega)
  · intro h
    refine ⟨by have := h.within; omega, ?_, fun later hlater hle => ?_⟩
    · rw [htake place (Nat.le_of_lt h.within)]
      exact h.absent
    · by_cases hlast : later ≤ history.length
      · rw [htake later hlast]
        exact h.present later hlater hlast
      · have hall : (history ++ [c]).take later = history ++ [c] :=
          List.take_of_length_le (by omega)
        rwa [hall]

/-- A key that the last change brought was added there. -/
theorem isAddedAt_last (hbefore : (reached history).get? key = none)
    (hafter : (reached (history ++ [c])).get? key ≠ none) :
    IsAddedAt (history ++ [c]) key place ↔ place = history.length := by
  have hlength : (history ++ [c]).length = history.length + 1 := List.length_append
  have htake : (history ++ [c]).take history.length = history := List.take_left
  constructor
  · intro h
    have hwithin := h.within
    by_contra hplace
    refine h.present history.length (by omega) (by omega) ?_
    rwa [htake]
  · rintro rfl
    refine ⟨by omega, by rwa [htake], fun later hlater hle => ?_⟩
    have hall : (history ++ [c]).take later = history ++ [c] := List.take_of_length_le (by omega)
    rwa [hall]

/-- Each key that is there was added by some change. -/
theorem exists_isAddedAt (hkey : (reached history).get? key ≠ none) :
    ∃ place, IsAddedAt history key place := by
  induction history using List.reverseRecOn with
  | nil => exact absurd rfl hkey
  | append_singleton history c ih =>
    by_cases hbefore : (reached history).get? key = none
    · exact ⟨history.length, (isAddedAt_last hbefore hkey).2 rfl⟩
    · obtain ⟨place, hplace⟩ := ih hbefore
      exact ⟨place, (isAddedAt_concat_iff hbefore hkey).2 hplace⟩

/-- The keys stand in the order of the changes that added them. -/
theorem pairwise_isAddedAt (history : List Change) :
    (reached history).keys.Pairwise fun key later => ∀ place behind,
      IsAddedAt history key place → IsAddedAt history later behind → place < behind := by
  induction history using List.reverseRecOn with
  | nil => exact .nil
  | append_singleton history c ih =>
    have hkeyed := isKeyed_reached history
    have hafter := isKeyed_reached (history ++ [c])
    have hstays : ∀ {key}, key ∈ (reached history).keys → key ∈ (reached (history ++ [c])).keys →
        ∀ {place}, IsAddedAt (history ++ [c]) key place ↔ IsAddedAt history key place :=
      fun hold hnew => isAddedAt_concat_iff (hkeyed.mem_keys_iff.1 hold)
        (hafter.mem_keys_iff.1 hnew)
    have hchange := hkeyed.keys_change c
    rw [← reached_concat] at hchange
    obtain hsublist | ⟨added, habsent, hkeys⟩ := hchange
    · refine (ih.sublist hsublist).imp_of_mem fun hkey hlater h place behind hplace hbehind => ?_
      exact h place behind ((hstays (hsublist.subset hkey) hkey).1 hplace)
        ((hstays (hsublist.subset hlater) hlater).1 hbehind)
    · have hmem : ∀ {key}, key ∈ (reached history).keys → key ∈ (reached (history ++ [c])).keys :=
        fun hkey => hkeys ▸ List.mem_append_left _ hkey
      have hadded : added ∈ (reached (history ++ [c])).keys := by simp [hkeys]
      rw [hkeys]
      refine List.pairwise_append.2 ⟨?_, List.pairwise_singleton _ added, ?_⟩
      · refine ih.imp_of_mem fun hkey hlater h place behind hplace hbehind => ?_
        exact h place behind ((hstays hkey (hmem hkey)).1 hplace)
          ((hstays hlater (hmem hlater)).1 hbehind)
      · intro key hkey later hlater place behind hplace hbehind
        rw [List.mem_singleton.1 hlater] at hbehind
        rw [(isAddedAt_last habsent (hafter.mem_keys_iff.1 hadded)).1 hbehind]
        exact ((hstays hkey (hmem hkey)).1 hplace).within

def overrideHistory (entries : List ServerOverride) : List Change :=
  builtinServers.map .register ++ entries.map .override

theorem reached_overrideHistory (entries : List ServerOverride) :
    reached (overrideHistory entries) = ofOverrides entries := by
  rw [reached, overrideHistory, List.foldl_append, List.foldl_map, List.foldl_map]
  rfl

/-- What a key has comes from the known server of that key and the entries of its name, in their
order. The keys stand in the order in which they were last added. -/
theorem ofOverrides_key_by_key (entries : List ServerOverride) :
    (∀ key, (ofOverrides entries).get? key =
      (entries.filter (·.name = key)).foldl (fun current entry => entry.outcome current)
        (builtinServers.find? fun spec => spec.key = key)) ∧
    (∀ before entry after key, entries = before ++ entry :: after → entry.name ≠ key →
      (ofOverrides entries).get? key = (ofOverrides (before ++ after)).get? key) ∧
    (ofOverrides entries).keys.Nodup ∧
    (∀ key, key ∈ (ofOverrides entries).keys ↔ (ofOverrides entries).get? key ≠ none) ∧
    (∀ key ∈ (ofOverrides entries).keys, ∃ place, IsAddedAt (overrideHistory entries) key place) ∧
    (ofOverrides entries).keys.Pairwise fun key later => ∀ place behind,
      IsAddedAt (overrideHistory entries) key place →
        IsAddedAt (overrideHistory entries) later behind → place < behind := by
  have hget : ∀ entries key, (ofOverrides entries).get? key =
      (entries.filter (·.name = key)).foldl (fun current entry => entry.outcome current)
        (builtinServers.find? fun spec => spec.key = key) := by
    intro entries key
    rw [ofOverrides, get?_overrides, get?_builtin]
  have hkeyed := isKeyed_ofOverrides entries
  refine ⟨hget entries, ?_, hkeyed.nodup_keys, fun key => hkeyed.mem_keys_iff, ?_, ?_⟩
  · rintro before entry after key rfl hname
    rw [hget, hget, List.filter_append, List.filter_append,
      List.filter_cons_of_neg (by simpa using hname)]
  · intro key hkey
    rw [hkeyed.mem_keys_iff, ← reached_overrideHistory] at hkey
    exact exists_isAddedAt hkey
  · rw [← reached_overrideHistory]
    exact pairwise_isAddedAt _

end Registry

end ProjectCheck
