import Redix.Base.FlatMap

/-!
# Flat sets

A flat map to `Unit` is a set: its keys, in ascending order. Intersections and unions of
many sets are folds; what is in the result (`contains_interAll`, `contains_unionAll`) does
not depend on the order of the sets, nor on how often each is listed, and hence neither does
the result (`interAll_congr`, `unionAll_congr`).
-/

universe u

/-- A set stored as a strictly sorted list. -/
abbrev FlatSet (κ : Type u) [LinearOrder κ] := FlatMap κ Unit

namespace FlatSet

variable {κ : Type u} [LinearOrder κ]

/-- The members of `a` that are in `b`. -/
def inter (a b : FlatSet κ) : FlatSet κ := a.filter fun k _ => b.contains k

/-- `a` with the members of `b` inserted one after another. -/
def union (a b : FlatSet κ) : FlatSet κ := b.keys.foldl (fun a k => a.insert k ()) a

/-- The intersection of all the sets; of none, the empty set. -/
def interAll : List (FlatSet κ) → FlatSet κ
  | [] => FlatMap.empty
  | a :: rest => rest.foldl inter a

/-- The union of all the sets. -/
def unionAll (sets : List (FlatSet κ)) : FlatSet κ := sets.foldl union FlatMap.empty

/-! ## Members -/

theorem mem_keys (a : FlatSet κ) (k : κ) : k ∈ a.keys ↔ a.contains k = true :=
  FlatMap.mem_keys a

/-- Sets with the same members are equal. -/
theorem ext {a b : FlatSet κ} (h : ∀ k, a.contains k = b.contains k) : a = b := by
  refine FlatMap.ext_find? fun k => ?_
  have hk := h k
  rw [FlatMap.contains, FlatMap.contains] at hk
  cases ha : a.find? k <;> cases hb : b.find? k
  · rfl
  · rw [ha, hb] at hk
    cases hk
  · rw [ha, hb] at hk
    cases hk
  · rfl

/-- Membership in an intersection. -/
theorem contains_inter (a b : FlatSet κ) (k : κ) :
    (inter a b).contains k = (a.contains k && b.contains k) := by
  simp only [FlatMap.contains, inter, FlatMap.find?_filter]
  cases a.find? k with
  | none => rfl
  | some u => cases b.find? k <;> rfl

/-- Membership after an insertion. -/
theorem contains_insert (a : FlatSet κ) (k k' : κ) :
    (a.insert k ()).contains k' = (decide (k = k') || a.contains k') := by
  rw [FlatMap.contains, FlatMap.find?_insert, FlatMap.contains]
  split_ifs with hk
  · rw [decide_eq_true hk]
    rfl
  · rw [decide_eq_false hk]
    rfl

/-- Membership after insertions. -/
theorem contains_foldl_insert (ks : List κ) (a : FlatSet κ) (k : κ) :
    (ks.foldl (fun a k => a.insert k ()) a).contains k = (a.contains k || decide (k ∈ ks)) := by
  induction ks generalizing a with
  | nil => simp
  | cons k' rest ih =>
    rw [List.foldl_cons, ih, contains_insert]
    by_cases hk : k' = k
    · simp [hk]
    · simp [hk, Ne.symm hk]

/-- Membership in a union. -/
theorem contains_union (a b : FlatSet κ) (k : κ) :
    (union a b).contains k = (a.contains k || b.contains k) := by
  rw [union, contains_foldl_insert]
  simp only [mem_keys, Bool.decide_eq_true]

/-- What is in an intersection of many sets with `a`. -/
theorem contains_foldl_inter (sets : List (FlatSet κ)) (a : FlatSet κ) (k : κ) :
    (sets.foldl inter a).contains k = true ↔
      a.contains k = true ∧ ∀ b ∈ sets, b.contains k = true := by
  induction sets generalizing a with
  | nil => simp
  | cons b rest ih =>
    rw [List.foldl_cons, ih, contains_inter, Bool.and_eq_true, List.forall_mem_cons, and_assoc]

/-- Membership in an intersection of many sets. -/
theorem contains_interAll {sets : List (FlatSet κ)} (h : sets ≠ []) (k : κ) :
    (interAll sets).contains k = true ↔ ∀ b ∈ sets, b.contains k = true := by
  cases sets with
  | nil => exact absurd rfl h
  | cons a rest => rw [interAll, contains_foldl_inter, List.forall_mem_cons]

/-- Membership in a union that is being built. -/
theorem contains_foldl_union (sets : List (FlatSet κ)) (a : FlatSet κ) (k : κ) :
    (sets.foldl union a).contains k = true ↔
      a.contains k = true ∨ ∃ b ∈ sets, b.contains k = true := by
  induction sets generalizing a with
  | nil => simp
  | cons b rest ih =>
    rw [List.foldl_cons, ih, contains_union, Bool.or_eq_true, or_assoc]
    simp only [List.mem_cons, exists_eq_or_imp]

/-- Membership in a union of many sets. -/
theorem contains_unionAll (sets : List (FlatSet κ)) (k : κ) :
    (unionAll sets).contains k = true ↔ ∃ b ∈ sets, b.contains k = true := by
  rw [unionAll, contains_foldl_union]
  exact or_iff_right Bool.false_ne_true

/-! ## Order and repetition -/

section congr

variable {sets sets' : List (FlatSet κ)}

/-- Intersections of the same sets are equal. -/
theorem interAll_congr (h : ∀ a, a ∈ sets ↔ a ∈ sets') : interAll sets = interAll sets' := by
  by_cases hnil : sets = []
  · obtain rfl : sets' = [] := by
      refine List.eq_nil_iff_forall_not_mem.mpr fun a ha => ?_
      rw [hnil] at h
      exact List.not_mem_nil ((h a).mpr ha)
    rw [hnil]
  -- which sets there are decides the members, however often and in which order
  · have hnil' : sets' ≠ [] := by
      obtain ⟨a, ha⟩ := List.exists_mem_of_ne_nil sets hnil
      exact List.ne_nil_of_mem ((h a).mp ha)
    refine ext fun k => Bool.eq_iff_iff.mpr ?_
    rw [contains_interAll hnil, contains_interAll hnil']
    simp only [h]

/-- Unions of the same sets are equal. -/
theorem unionAll_congr (h : ∀ a, a ∈ sets ↔ a ∈ sets') : unionAll sets = unionAll sets' := by
  refine ext fun k => Bool.eq_iff_iff.mpr ?_
  rw [contains_unionAll, contains_unionAll]
  simp only [h]

end congr

/-! ## Empty sets -/

/-- Once empty, an intersection stays empty. -/
theorem foldl_inter_empty (sets : List (FlatSet κ)) :
    sets.foldl inter FlatMap.empty = FlatMap.empty := by
  induction sets with
  | nil => rfl
  | cons b rest ih => exact ih

/-- Nothing is common with the empty set. -/
theorem inter_empty (a : FlatSet κ) : inter a FlatMap.empty = FlatMap.empty := by
  refine ext fun k => ?_
  rw [contains_inter]
  exact Bool.and_false _

end FlatSet
