import Mathlib.Data.List.Induction

/-!
Lists without repetitions. What is left of a list stands in the order in which it first came, which
nothing else does that has the same values.
-/
namespace ProjectCheck

variable {α : Type} [BEq α] [LawfulBEq α]

theorem eraseDups_concat (l : List α) (a : α) :
    (l ++ [a]).eraseDups = if a ∈ l then l.eraseDups else l.eraseDups ++ [a] := by
  rw [List.eraseDups_append]
  split
  · rename_i h
    simp [List.removeAll, h]
  · rename_i h
    simp [List.removeAll, h, List.eraseDups_cons]

/-- What is left without repetitions stands in the order in which it first came. -/
theorem pairwise_eraseDups (l : List α) :
    l.eraseDups.Pairwise fun a b => l.idxOf a < l.idxOf b := by
  induction l using List.reverseRecOn with
  | nil => exact .nil
  | append_singleton l last ih =>
    have hold : l.eraseDups.Pairwise fun a b =>
        (l ++ [last]).idxOf a < (l ++ [last]).idxOf b := by
      refine ih.imp_of_mem fun ha hb hlt => ?_
      rwa [List.idxOf_append, List.idxOf_append, if_pos (List.mem_eraseDups.1 ha),
        if_pos (List.mem_eraseDups.1 hb)]
    rw [eraseDups_concat]
    split
    · exact hold
    · rename_i hlast
      refine List.pairwise_append.2 ⟨hold, List.pairwise_singleton _ last, fun a ha b hb => ?_⟩
      have hmem := List.mem_eraseDups.1 ha
      rw [List.mem_singleton.1 hb, List.idxOf_append, List.idxOf_append, if_pos hmem, if_neg hlast]
      exact Nat.lt_of_lt_of_le (List.idxOf_lt_length_of_mem hmem) (Nat.le_add_left ..)

theorem nodup_eraseDups (l : List α) : l.eraseDups.Nodup :=
  (pairwise_eraseDups l).imp fun hlt heq => by simp [heq] at hlt

structure AreFirstOccurrences (values list : List α) : Prop where
  nodup : values.Nodup
  mem_iff : ∀ value, value ∈ values ↔ value ∈ list
  ordered : values.Pairwise fun value later => list.idxOf value < list.idxOf later

theorem areFirstOccurrences_eraseDups (list : List α) :
    AreFirstOccurrences list.eraseDups list :=
  ⟨nodup_eraseDups list, fun _ => List.mem_eraseDups, pairwise_eraseDups list⟩

theorem AreFirstOccurrences.eq_eraseDups {values list : List α}
    (h : AreFirstOccurrences values list) : values = list.eraseDups := by
  have hperm : values.Perm list.eraseDups := by
    rw [List.perm_ext_iff_of_nodup h.nodup (nodup_eraseDups list)]
    intro value
    rw [h.mem_iff, List.mem_eraseDups]
  refine hperm.eq_of_pairwise (fun first second _ _ hlt hgt => ?_) h.ordered
    (pairwise_eraseDups list)
  exact absurd hgt (Nat.lt_asymm hlt)

/-- A list without repetitions is what is left of it. -/
theorem AreFirstOccurrences.self {list : List α} (h : list.Nodup) :
    AreFirstOccurrences list list := by
  refine ⟨h, fun _ => Iff.rfl, List.pairwise_iff_getElem.2 fun i j hi hj hlt => ?_⟩
  rwa [h.idxOf_getElem i hi, h.idxOf_getElem j hj]

end ProjectCheck
