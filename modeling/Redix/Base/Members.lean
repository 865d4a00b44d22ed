import Mathlib.Data.Finset.Sort
import Redix.Base.BulkWrites
import Redix.Base.FlatSet

/-!
# Flat sets as finite sets

A flat set is a finite set in ascending order, and nothing more: it is determined by its
members (`eq_ofMembers`). So the operations of flat sets, which go through sorted sequences,
are operations of finite sets, and what is counted on the way are cardinalities.

- `keys_ofMembers`, `size_ofMembers`: what a flat set lists and counts;
- `insertAll_ofMembers`, `eraseAll_ofMembers`: many insertions and erasures;
- `interAll_ofMembers`, `unionAll_ofMembers`: intersections and unions of many sets.
-/

universe u

namespace FlatSet

variable {κ : Type u} [LinearOrder κ]

/-- The flat set with the given members. -/
def ofMembers (a : Finset κ) : FlatSet κ :=
  ⟨(a.sort (· ≤ ·)).map fun k => (k, ()), List.pairwise_map.mpr (Finset.sortedLT_sort a).pairwise⟩

variable {a : Finset κ} {b : FlatSet κ} {k : κ}

/-- It lists its members in ascending order. -/
theorem keys_ofMembers : FlatMap.keys (ofMembers a) = a.sort (· ≤ ·) := by
  rw [FlatMap.keys, ofMembers, List.map_map]
  exact List.map_id _

/-- The size is the number of members. -/
theorem size_ofMembers : FlatMap.size (ofMembers a) = a.card := by
  rw [FlatMap.size, ofMembers, List.length_map, Finset.length_sort]

/-- What is in the set is what was listed. -/
@[simp] theorem contains_ofMembers : FlatMap.contains (ofMembers a) k = true ↔ k ∈ a := by
  rw [← mem_keys, keys_ofMembers, Finset.mem_sort]

theorem find?_ofMembers_eq_none : FlatMap.find? (ofMembers a) k = none ↔ k ∉ a := by
  rw [← contains_ofMembers, FlatMap.contains, Bool.not_eq_true, Option.isSome_eq_false_iff,
    Option.isNone_iff_eq_none]

/-- A flat set is determined by its members. -/
theorem eq_ofMembers (h : ∀ k, FlatMap.contains b k = true ↔ k ∈ a) : b = ofMembers a := by
  refine ext fun k => ?_
  rw [Bool.eq_iff_iff, contains_ofMembers, h]

/-- Nothing listed is the empty set. -/
theorem ofMembers_empty : ofMembers ∅ = (FlatMap.empty : FlatSet κ) := by
  refine (eq_ofMembers fun k => iff_of_false ?_ (Finset.notMem_empty k)).symm
  exact Bool.false_ne_true

/-- The flat set is empty exactly if the finite set is. -/
theorem isEmpty_ofMembers : FlatMap.isEmpty (ofMembers a) = true ↔ a = ∅ := by
  rw [← Finset.card_eq_zero, ← size_ofMembers, FlatMap.size, List.length_eq_zero_iff]
  exact List.isEmpty_iff

/-! ## Many insertions and erasures -/

/-- Members written one after another are there. -/
theorem setAll_members (ks : List κ) (f : Lookup κ Unit) (k : κ) :
    Lookup.setAll (ks.map fun k => (k, ())) f k = if k ∈ ks then some () else f k := by
  induction ks generalizing f with
  | nil => rfl
  | cons k' rest ih =>
    refine (ih (Function.update f k' (some ()))).trans ?_
    by_cases hk : k = k'
    · rw [hk, Function.update_self, if_pos List.mem_cons_self]
      split_ifs <;> rfl
    · rw [Function.update_of_ne hk]
      simp only [List.mem_cons, hk, false_or]

section

variable [inst : DecidableEq κ]

/-- Members that are inserted one after another. -/
theorem insertAll_ofMembers (ks : List κ) (a : Finset κ) :
    FlatMap.insertAll (ks.map fun k => (k, ())) (ofMembers a) =
      ((ks.toFinset \ a).card, ofMembers (a ∪ ks.toFinset)) := by
  obtain rfl : inst = LinearOrder.toDecidableEq := Subsingleton.elim _ _
  refine Prod.ext ?_ (eq_ofMembers fun k => ?_)
  -- what is counted is the keys that were missing, each once
  · have hkeys : (ks.map fun k => (k, ())).map Prod.fst = ks := by
      rw [List.map_map]
      exact List.map_id ks
    rw [FlatMap.insertAll_fst, hkeys, Lookup.missing]
    refine congrArg Finset.card (Finset.ext fun k => ?_)
    rw [Finset.mem_filter, List.mem_toFinset, Finset.mem_sdiff, List.mem_toFinset,
      find?_ofMembers_eq_none]
  · rw [FlatMap.contains, FlatMap.find?_insertAll, setAll_members, Finset.mem_union,
      List.mem_toFinset]
    by_cases hk : k ∈ ks
    · rw [if_pos hk]
      exact iff_of_true rfl (.inr hk)
    · rw [if_neg hk, or_iff_left hk]
      exact contains_ofMembers

/-- Members that are erased one after another. -/
theorem eraseAll_ofMembers (ks : List κ) (a : Finset κ) :
    FlatMap.eraseAll ks (ofMembers a) =
      ((ks.toFinset ∩ a).card, ofMembers (a \ ks.toFinset)) := by
  refine Prod.ext ?_ (eq_ofMembers fun k => ?_)
  · show _ = (ks.toFinset ∩ a).card
    rw [← Finset.filter_mem_eq_inter]
    refine FlatMap.eraseAll_count fun k _ => ?_
    rw [ne_eq, find?_ofMembers_eq_none, not_not]
  · rw [FlatMap.contains, FlatMap.find?_eraseAll, Lookup.unsetAll_eq, Finset.mem_sdiff,
      List.mem_toFinset]
    by_cases hk : k ∈ ks
    · rw [if_pos hk]
      exact iff_of_false Bool.false_ne_true fun h => h.2 hk
    · rw [if_neg hk, and_iff_left hk]
      exact contains_ofMembers

end

/-! ## Many sets -/

/-- The intersection is the one of finite sets. -/
theorem interAll_ofMembers [DecidableEq κ] (a : Finset κ) (sets : List (Finset κ)) :
    interAll (ofMembers a :: sets.map ofMembers) =
      ofMembers (a.filter fun k => ∀ b ∈ sets, k ∈ b) := by
  refine eq_ofMembers fun k => ?_
  rw [contains_interAll (List.cons_ne_nil _ _), List.forall_mem_cons, List.forall_mem_map,
    Finset.mem_filter]
  simp only [contains_ofMembers]

/-- The union is the one of finite sets. -/
theorem unionAll_ofMembers [DecidableEq κ] (sets : List (Finset κ)) :
    unionAll (sets.map ofMembers) = ofMembers (sets.foldr (· ∪ ·) ∅) := by
  refine eq_ofMembers fun k => ?_
  have hmem : k ∈ sets.foldr (· ∪ ·) ∅ ↔ ∃ b ∈ sets, k ∈ b := by
    induction sets with
    | nil => simp
    | cons b rest ih => simp [ih]
  rw [contains_unionAll, hmem]
  simp only [List.mem_map, exists_exists_and_eq_and, contains_ofMembers]

end FlatSet
