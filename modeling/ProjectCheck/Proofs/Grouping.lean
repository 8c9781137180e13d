import ProjectCheck.Report

/-!
Items in groups, one group for each key. Nothing is lost by putting items into groups and nothing is
there twice: the first item opens the first group, which takes all items of its key, and the other
items are put into groups in the same way.
-/
namespace ProjectCheck

variable {α κ : Type} [DecidableEq κ] {key : α → κ}

/-- There is a group for each key of the items, and it has just the items of its key. -/
theorem mem_groupBy {items group : List α} {k : κ} :
    (k, group) ∈ groupBy key items ↔
      (∃ item ∈ items, key item = k) ∧ group = items.filter fun item => key item = k := by
  simp only [groupBy, List.mem_map, List.mem_eraseDups, Prod.mk.injEq]
  constructor
  · rintro ⟨_, hmem, rfl, rfl⟩
    exact ⟨hmem, rfl⟩
  · rintro ⟨hmem, rfl⟩
    exact ⟨k, hmem, rfl, rfl⟩

theorem groupBy_cons (key : α → κ) (first : α) (rest : List α) :
    groupBy key (first :: rest) =
      (key first, first :: rest.filter fun item => key item = key first) ::
        groupBy key (rest.filter fun item => key item ≠ key first) := by
  have hkeys : ((rest.map key).filter fun k => !k == key first) =
      (rest.filter fun item => key item ≠ key first).map key := by
    rw [List.filter_map]
    refine congrArg (List.map key) (List.filter_congr fun item _ => ?_)
    rw [Bool.eq_iff_iff]
    simp
  have hfirst : (first :: rest).filter (fun item => key item = key first) =
      first :: rest.filter fun item => key item = key first :=
    List.filter_cons_of_pos (decide_eq_true rfl)
  rw [groupBy, groupBy, List.map_cons, List.eraseDups_cons, hkeys, List.map_cons, hfirst]
  refine congrArg (List.cons _) (List.map_congr_left fun k hk => ?_)
  rw [List.mem_eraseDups, List.mem_map] at hk
  obtain ⟨item, hitem, rfl⟩ := hk
  -- The first item and those of its key are in no other group.
  have hother : key item ≠ key first := by simpa using (List.mem_filter.1 hitem).2
  rw [List.filter_cons_of_neg (by simpa using hother.symm), List.filter_filter]
  refine congrArg (Prod.mk _) (List.filter_congr fun other _ => ?_)
  by_cases hsame : key other = key item
  · simp [hsame, hother]
  · simp [hsame]

/-- No two groups have the same key. -/
theorem nodup_keys_groupBy (key : α → κ) :
    ∀ items : List α, ((groupBy key items).map Prod.fst).Nodup
  | [] => List.nodup_nil
  | first :: rest => by
    rw [groupBy_cons, List.map_cons, List.nodup_cons]
    refine ⟨fun hmem => ?_, nodup_keys_groupBy key _⟩
    obtain ⟨⟨k, group⟩, hgroup, rfl⟩ := List.mem_map.1 hmem
    obtain ⟨⟨item, hitem, hsame⟩, -⟩ := mem_groupBy.1 hgroup
    simp [hsame] at hitem
  termination_by items => items.length
  decreasing_by exact Nat.lt_succ_of_le (List.length_filter_le _ _)

/-- The groups together have the items, in another order. -/
theorem flatMap_groupBy_perm (key : α → κ) :
    ∀ items : List α, ((groupBy key items).flatMap Prod.snd).Perm items
  | [] => .nil
  | first :: rest => by
    rw [groupBy_cons, List.flatMap_cons, List.cons_append]
    refine .cons first (((flatMap_groupBy_perm key _).append_left _).trans ?_)
    simpa using List.filter_append_perm (fun item => decide (key item = key first)) rest
  termination_by items => items.length
  decreasing_by exact Nat.lt_succ_of_le (List.length_filter_le _ _)

end ProjectCheck
