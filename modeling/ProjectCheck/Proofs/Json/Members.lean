import ProjectCheck.Json.Basic

/-!
Members as a dictionary: what a name has after another one was given a value or erased, and values
that are read off other values.
-/
namespace ProjectCheck.Members

variable {α β κ : Type} [DecidableEq κ] {name other : κ} {members : Members α κ}

theorem get?_eq_none_iff : get? name members = none ↔ name ∉ members.names := by
  induction members with
  | nil => simp [get?, names]
  | cons member rest ih =>
    by_cases h : member.1 = name
    · simp [get?, names, h]
    · simpa [get?, names, h, Ne.symm h] using ih

theorem get?_erase_self (name : κ) (members : Members α κ) :
    get? name (members.erase name) = none := by
  rw [get?_eq_none_iff, names, erase, List.mem_map]
  rintro ⟨member, hmem, rfl⟩
  simp at hmem

theorem get?_erase_of_ne (h : other ≠ name) (members : Members α κ) :
    get? other (members.erase name) = get? other members := by
  induction members with
  | nil => rfl
  | cons member rest ih =>
    by_cases hm : member.1 = name
    · simpa [erase, get?, hm, Ne.symm h] using ih
    · simpa [erase, get?, hm] using congrArg (ite (member.1 = other) (some member.2)) ih

theorem set_of_not_mem (h : name ∉ members.names) (value : α) :
    members.set name value = members ++ [(name, value)] := by
  induction members with
  | nil => rfl
  | cons member rest ih =>
    simp only [names, List.map_cons, List.mem_cons, not_or] at h
    have hne : member.1 ≠ name := fun heq => h.1 heq.symm
    rw [set, if_neg hne, ih h.2, List.cons_append]

/-- Giving a name a value adds the name at the end unless it is there. -/
theorem names_set (name : κ) (value : α) (members : Members α κ) :
    (set name value members).names =
      if name ∈ members.names then members.names else members.names ++ [name] := by
  induction members with
  | nil => rfl
  | cons member rest ih =>
    by_cases h : member.1 = name
    · simp [set, names, h]
    · have hnames : names (member :: rest) = member.1 :: names rest := rfl
      rw [set, if_neg h, hnames, names, List.map_cons, ← names, ih]
      simp only [List.mem_cons, Ne.symm h, false_or]
      split <;> rfl

/-- A name that is there gets its value in its place. -/
theorem exists_set_eq (h : name ∈ members.names) (value : α) :
    ∃ before old after, members = before ++ (name, old) :: after ∧
      set name value members = before ++ (name, value) :: after := by
  induction members with
  | nil => cases h
  | cons member rest ih =>
    obtain ⟨other, found⟩ := member
    by_cases hname : other = name
    · subst hname
      exact ⟨[], found, rest, rfl, if_pos rfl⟩
    · obtain ⟨before, old, after, hrest, hset⟩ :=
        ih ((List.mem_cons.1 h).resolve_left (Ne.symm hname))
      refine ⟨(other, found) :: before, old, after, congrArg (List.cons _) hrest, ?_⟩
      rw [set, if_neg hname, hset, List.cons_append]

theorem mem_set {member : κ × α} {value : α} (h : member ∈ set name value members) :
    member = (name, value) ∨ member ∈ members := by
  induction members with
  | nil => exact .inl (List.mem_singleton.1 h)
  | cons first rest ih =>
    rw [set] at h
    split at h
    · rename_i heq
      rw [heq] at h
      exact (List.mem_cons.1 h).imp id (List.mem_cons_of_mem first)
    · rcases List.mem_cons.1 h with rfl | hmem
      · exact .inr (List.mem_cons_self ..)
      · exact (ih hmem).imp id (List.mem_cons_of_mem first)

theorem mem_of_get? {value : α} (h : get? name members = some value) : (name, value) ∈ members := by
  induction members with
  | nil => cases h
  | cons member rest ih =>
    rw [get?] at h
    split at h
    · rename_i hname
      obtain rfl := Option.some.inj h
      exact hname ▸ List.mem_cons_self
    · exact List.mem_cons_of_mem _ (ih h)

/-- A member is what its name has when no name has two places. -/
theorem get?_of_mem {value : α} (h : members.names.Nodup) (hmem : (name, value) ∈ members) :
    get? name members = some value := by
  induction members with
  | nil => cases hmem
  | cons first rest ih =>
    obtain ⟨hnot, hrest⟩ := List.nodup_cons.1 h
    rcases List.mem_cons.1 hmem with rfl | hmem
    · exact if_pos rfl
    · have hne : first.1 ≠ name := by
        rintro rfl
        exact hnot (List.mem_map.2 ⟨_, hmem, rfl⟩)
      exact (if_neg hne).trans (ih hrest hmem)

theorem nodup_set (h : members.names.Nodup) (name : κ) (value : α) :
    (set name value members).names.Nodup := by
  rw [names_set]
  split
  · exact h
  · rename_i hnot
    refine List.nodup_append.2 ⟨h, List.pairwise_singleton _ name, fun a ha b hb => ?_⟩
    rw [List.mem_singleton.1 hb]
    exact fun heq => hnot (heq ▸ ha)

theorem nodup_erase (h : members.names.Nodup) (name : κ) :
    (members.erase name).names.Nodup :=
  h.sublist (List.filter_sublist.map Prod.fst)

/-! Values that are read off other values. -/

theorem get?_map (f : α → β) (name : κ) (members : Members α κ) :
    get? name (List.map (Prod.map id f) members) = (get? name members).map f := by
  induction members with
  | nil => rfl
  | cons member rest ih =>
    obtain ⟨other, found⟩ := member
    by_cases h : other = name
    · simp [get?, h]
    · simp [get?, h, ih]

theorem map_set (f : α → β) (name : κ) (value : α) (members : Members α κ) :
    List.map (Prod.map id f) (set name value members) =
      set name (f value) (List.map (Prod.map id f) members) := by
  induction members with
  | nil => rfl
  | cons member rest ih =>
    obtain ⟨other, found⟩ := member
    by_cases h : other = name
    · simp [set, h]
    · simp [set, h, ih]

theorem map_erase (f : α → β) (name : κ) (members : Members α κ) :
    List.map (Prod.map id f) (erase name members) =
      erase name (List.map (Prod.map id f) members) := by
  rw [erase, erase, List.filter_map]
  rfl

omit [DecidableEq κ] in
theorem names_map (f : α → β) (members : Members α κ) :
    names (List.map (Prod.map id f) members) = members.names := by
  rw [names, names, List.map_map]
  rfl

end ProjectCheck.Members
