import Redix.Base.FlatSet
import Redix.Command.Effects

/-!
# Intersections and unions of sets

`SINTER` and `SUNION` go through the keys with an accumulator; `SINTER` stops early at a
missing key and when nothing is left. Both are the folds of `FlatSet` over all the sets, a
key that is not live being the empty set (`interLoop_eq`, `unionLoop_eq`).
-/

namespace Redix

variable {now : UInt64} {s : Store} {keys : List Bytes}

/-! ## The loops -/

/-- The set an entry holds; empty if there is none. -/
def setOf : Option Entry → FlatSet Bytes
  | none => FlatMap.empty
  | some e => (setValue.get? e.value).getD FlatMap.empty

/-- The set under a key. -/
def Store.setAt (now : UInt64) (s : Store) (key : Bytes) : FlatSet Bytes :=
  setOf (findLive now s.data key)

/-- The source tests an intersection for being empty, and then returns at once. -/
theorem foldl_inter_of_isEmpty {a : FlatSet Bytes} (h : a.isEmpty = true)
    (sets : List (FlatSet Bytes)) : (sets.foldl FlatSet.inter a).keys = [] := by
  obtain ⟨entries, hsorted⟩ := a
  obtain rfl : entries = [] := List.isEmpty_iff.mp h
  exact congrArg FlatMap.keys (FlatSet.foldl_inter_empty sets)

/-- The loop of `sinter` with an accumulator: the early exits do not change the result. -/
theorem interLoop_some (os : List (Option Entry)) (result : FlatSet Bytes) :
    Store.interLoop os (some result) = ((os.map setOf).foldl FlatSet.inter result).keys := by
  -- from an empty set on, the rest does not matter
  have hempty : ∀ rest : List (Option Entry), ∀ a : FlatSet Bytes,
      ((rest.map setOf).foldl FlatSet.inter (FlatSet.inter a FlatMap.empty)).keys = [] := by
    intro rest a
    rw [FlatSet.inter_empty, FlatSet.foldl_inter_empty]
    rfl
  induction os generalizing result with
  | nil => rfl
  | cons o rest ih =>
    rw [List.map_cons, List.foldl_cons]
    cases o with
    | none => exact (hempty rest result).symm
    | some e =>
      rw [Store.interLoop, setOf]
      cases setValue.get? e.value with
      | none => exact (hempty rest result).symm
      | some set =>
        simp only [Option.getD_some]
        by_cases hnext : (FlatSet.inter result set).isEmpty = true
        · rw [foldl_inter_of_isEmpty hnext]
          exact if_pos hnext
        · rw [← ih]
          exact if_neg hnext

/-- The loop of `sinter` is the intersection of all the sets. -/
theorem interLoop_eq {os : List (Option Entry)} (h : os ≠ []) :
    Store.interLoop os none = (FlatSet.interAll (os.map setOf)).keys := by
  cases os with
  | nil => exact absurd rfl h
  | cons o rest =>
    rw [List.map_cons, FlatSet.interAll]
    cases o with
    -- a missing key is an empty set, and it ends the loop early
    | none => exact (congrArg FlatMap.keys (FlatSet.foldl_inter_empty _)).symm
    | some e =>
      rw [Store.interLoop, setOf]
      cases setValue.get? e.value with
      | none => exact (congrArg FlatMap.keys (FlatSet.foldl_inter_empty _)).symm
      | some set => exact interLoop_some rest set

/-- The loop of `sunion` is the union of all the sets. -/
theorem unionLoop_eq (os : List (Option Entry)) (result : FlatSet Bytes) :
    Store.unionLoop os result = ((os.map setOf).foldl FlatSet.union result).keys := by
  induction os generalizing result with
  | nil => rfl
  | cons o rest ih =>
    rw [List.map_cons, List.foldl_cons]
    cases o with
    | none => exact ih result
    | some e =>
      rw [Store.unionLoop, setOf]
      cases setValue.get? e.value with
      | none => exact ih result
      | some set => exact ih (FlatSet.union result set)

/-! ## The commands -/

/-- None of the keys is a live value of another type. -/
def OnlySets (now : UInt64) (s : Store) (keys : List Bytes) : Prop :=
  ∀ key ∈ keys, ∀ e, findLive now s.data key = some e → e.value.type = .set

/-- A command of the set algebra on sets. -/
theorem dispatch_algebra {name : Bytes} {f : List (Option Entry) → List Bytes}
    (hrow : specTable.lookup name = some (.gather (algebra f))) (hkeys : keys ≠ [])
    (hsets : OnlySets now s keys) :
    (dispatch now ⟨name, keys⟩ s).1 = stringArray (f (keys.map (findLive now s.data))) := by
  have harity : Command.atLeast ⟨name, keys⟩ 1 := List.length_pos_iff.mpr hkeys
  -- no key holds anything but a set, so the type check passes
  have hnone : ¬ (keys.map (findLive now s.data)).any
      (fun o => o.any fun e => e.value.type ≠ .set) := by
    simp only [List.any_map, List.any_eq_true, not_exists, not_and]
    intro key hkey
    simp only [Function.comp_apply]
    cases hlive : findLive now s.data key with
    | none => exact Bool.false_ne_true
    | some e => simp [hsets key hkey e hlive]
  rw [dispatch_eq hrow, serve_gather, if_pos harity, algebra, if_neg hnone]
  exact bytes_strings _

theorem dispatch_sinter (hkeys : keys ≠ []) (hsets : OnlySets now s keys) :
    (dispatch now ⟨ascii "SINTER", keys⟩ s).1 =
      stringArray (FlatSet.interAll (keys.map (s.setAt now))).keys := by
  have hrow : specTable.lookup (ascii "SINTER") = some .sinter := rfl
  have hlive : keys.map (findLive now s.data) ≠ [] := by simpa using hkeys
  rw [dispatch_algebra hrow hkeys hsets, interLoop_eq hlive, List.map_map]
  rfl

theorem dispatch_sunion (hkeys : keys ≠ []) (hsets : OnlySets now s keys) :
    (dispatch now ⟨ascii "SUNION", keys⟩ s).1 =
      stringArray (FlatSet.unionAll (keys.map (s.setAt now))).keys := by
  have hrow : specTable.lookup (ascii "SUNION") = some .sunion := rfl
  rw [dispatch_algebra hrow hkeys hsets, unionLoop_eq, List.map_map]
  rfl

/-- The sets under the same keys, in any order and however often. -/
theorem mem_map_setAt {keys' : List Bytes} (h : ∀ key, key ∈ keys' ↔ key ∈ keys)
    (a : FlatSet Bytes) : a ∈ keys'.map (s.setAt now) ↔ a ∈ keys.map (s.setAt now) := by
  simp only [List.mem_map, h]

/-- **Set algebra is exact.** For keys none of which is a live value of another type:
`SINTER` lists, in order and once each, the common members of all the sets, and is the
intersection of all of them in full; `SUNION` those of at least one; and neither depends on
the order of the keys or on how often one is listed. -/
theorem set_algebra_exact (hkeys : keys ≠ []) (hsets : OnlySets now s keys) :
    (∃ common, (dispatch now ⟨ascii "SINTER", keys⟩ s).1 = stringArray common ∧
      common.Pairwise (· < ·) ∧
      (∀ m, m ∈ common ↔ ∀ key ∈ keys, (s.setAt now key).contains m = true) ∧
      common = (FlatSet.interAll (keys.map (s.setAt now))).keys) ∧
    (∃ united, (dispatch now ⟨ascii "SUNION", keys⟩ s).1 = stringArray united ∧
      united.Pairwise (· < ·) ∧
      ∀ m, m ∈ united ↔ ∃ key ∈ keys, (s.setAt now key).contains m = true) ∧
    ∀ keys', (∀ key, key ∈ keys' ↔ key ∈ keys) →
      (dispatch now ⟨ascii "SINTER", keys'⟩ s).1 = (dispatch now ⟨ascii "SINTER", keys⟩ s).1 ∧
      (dispatch now ⟨ascii "SUNION", keys'⟩ s).1 =
        (dispatch now ⟨ascii "SUNION", keys⟩ s).1 := by
  have hmap : keys.map (s.setAt now) ≠ [] := by simpa using hkeys
  refine ⟨⟨_, dispatch_sinter hkeys hsets, List.pairwise_map.mpr (FlatMap.sorted _),
    fun m => ?_, rfl⟩, ⟨_, dispatch_sunion hkeys hsets, List.pairwise_map.mpr (FlatMap.sorted _),
    fun m => ?_⟩, fun keys' hsame => ?_⟩
  · rw [FlatSet.mem_keys, FlatSet.contains_interAll hmap, List.forall_mem_map]
  · rw [FlatSet.mem_keys, FlatSet.contains_unionAll]
    simp only [List.mem_map, exists_exists_and_eq_and]
  -- the members depend on the keys as a set only, and their order on the members
  · obtain ⟨key, hkey⟩ := List.exists_mem_of_ne_nil keys hkeys
    have hkeys' : keys' ≠ [] := List.ne_nil_of_mem ((hsame key).mpr hkey)
    have hsets' : OnlySets now s keys' := fun key hkey => hsets key ((hsame key).mp hkey)
    rw [dispatch_sinter hkeys hsets, dispatch_sinter hkeys' hsets',
      dispatch_sunion hkeys hsets, dispatch_sunion hkeys' hsets',
      FlatSet.interAll_congr (mem_map_setAt hsame), FlatSet.unionAll_congr (mem_map_setAt hsame)]
    exact ⟨rfl, rfl⟩

/-- Two sets that share a member, one of them listed twice. -/
theorem set_algebra_exact_sinter :
    let s := execAll [(1, ⟨ascii "SADD", [ascii "a", ascii "x", ascii "y"]⟩),
      (2, ⟨ascii "SADD", [ascii "b", ascii "y", ascii "z"]⟩)] Store.empty
    ∃ common, (dispatch 3 ⟨ascii "SINTER", [ascii "b", ascii "a", ascii "b"]⟩ s).1 =
      stringArray common ∧ common.Pairwise (· < ·) := by
  intro s
  have hsets : OnlySets 3 s [ascii "b", ascii "a", ascii "b"] := by
    have hall : ∀ key ∈ [ascii "b", ascii "a", ascii "b"],
        ((findLive 3 s.data key).any fun e => e.value.type ≠ .set) = false := by decide
    intro key hkey e hlive
    have hset := hall key hkey
    rw [hlive] at hset
    simpa using hset
  obtain ⟨common, hreply, hsorted, -⟩ := (set_algebra_exact (by decide) hsets).1
  exact ⟨common, hreply, hsorted⟩

end Redix
