import Mathlib.Data.Finset.Card
import Redix.Base.FlatMap

/-!
# Many writes to a flat map

`FlatMap.insertAll` and `FlatMap.eraseAll` write one entry after another and count what
changed. Read through lookups, they are the same folds over functions (`Lookup.setAll`,
`Lookup.unsetAll`), and the counts are cardinalities of finite sets of keys.

- `find?_insertAll`, `find?_eraseAll`: the lookups afterwards;
- `insertAll_fst`, `eraseAll_fst`: the counts, by the lookups before;
- `size_insertAll`, `size_eraseAll`: the counts, by the sizes before and after;
- `insertAll_append`, `eraseAll_append`: two batches are one;
- `insertAll_again`, `eraseAll_again`: a batch done twice is done once.
-/

universe u v

/-! ## Partial functions -/

/-- What is found under each key. -/
abbrev Lookup (κ : Type u) (ν : Type v) := κ → Option ν

namespace Lookup

variable {κ : Type u} {ν : Type v} [LinearOrder κ]

/-- Set keys one after another. -/
def setAll (es : List (κ × ν)) (f : Lookup κ ν) : Lookup κ ν :=
  es.foldl (fun f e => Function.update f e.1 (some e.2)) f

/-- Unset keys one after another. -/
def unsetAll (ks : List κ) (f : Lookup κ ν) : Lookup κ ν :=
  ks.foldl (fun f k => Function.update f k none) f

/-- How many of the keys are unset. -/
def missing (f : Lookup κ ν) (ks : List κ) : Nat :=
  (ks.toFinset.filter fun k => f k = none).card

/-- How many of the keys are set. -/
def present (f : Lookup κ ν) (ks : List κ) : Nat :=
  (ks.toFinset.filter fun k => f k ≠ none).card

/-- Unsetting keys leaves the others. -/
theorem unsetAll_eq (ks : List κ) (f : Lookup κ ν) (k : κ) :
    unsetAll ks f k = if k ∈ ks then none else f k := by
  induction ks generalizing f with
  | nil => rfl
  | cons k' rest ih =>
    refine (ih (Function.update f k' none)).trans ?_
    by_cases hrest : k ∈ rest
    · rw [if_pos hrest, if_pos (List.mem_cons_of_mem k' hrest)]
    · rw [if_neg hrest]
      by_cases hk : k = k'
      · rw [hk, Function.update_self, if_pos List.mem_cons_self]
      · rw [Function.update_of_ne hk, if_neg (by simp [hk, hrest])]

/-- What is set is what the writes say, or else what was there. -/
theorem setAll_eq (es : List (κ × ν)) (f : Lookup κ ν) (k : κ) :
    setAll es f k = (setAll es (fun _ => none) k).or (f k) := by
  induction es generalizing f with
  | nil => rfl
  | cons e rest ih =>
    show setAll rest (Function.update f e.1 (some e.2)) k =
      (setAll rest (Function.update (fun _ => none) e.1 (some e.2)) k).or (f k)
    rw [ih, ih (Function.update _ _ _), Option.or_assoc]
    congr 1
    by_cases hk : k = e.1
    · rw [hk, Function.update_self, Function.update_self]
      rfl
    · rw [Function.update_of_ne hk, Function.update_of_ne hk]
      rfl

/-- Writes done twice are done once. -/
theorem setAll_again (es : List (κ × ν)) (f : Lookup κ ν) :
    setAll es (setAll es f) = setAll es f := by
  funext k
  rw [setAll_eq es (setAll es f), setAll_eq es f, ← Option.or_assoc, Option.or_self]

/-- An element counts once, whether it was there or not. -/
theorem card_insert_erase (k : κ) (s : Finset κ) : (insert k s).card = (s.erase k).card + 1 := by
  rw [← Finset.card_erase_add_one (Finset.mem_insert_self k s), Finset.erase_insert_eq_erase]

/-- A key that is set is no longer missing. -/
theorem missing_cons (f : Lookup κ ν) (k : κ) (v : ν) (ks : List κ) :
    missing f (k :: ks) =
      missing (Function.update f k (some v)) ks + if f k = none then 1 else 0 := by
  -- once `k` is set it is missing no more, however often it comes again
  have hrest : (ks.toFinset.filter fun j => Function.update f k (some v) j = none) =
      (ks.toFinset.filter fun j => f j = none).erase k := by
    ext j
    by_cases hj : j = k
    · simp [hj]
    · simp [hj]
  rw [missing, missing, hrest, List.toFinset_cons, Finset.filter_insert]
  split_ifs with hk
  · exact card_insert_erase k _
  · rw [Finset.erase_eq_of_notMem (by simp [hk])]
    rfl

/-- A key that is unset is no longer present. -/
theorem present_cons (f : Lookup κ ν) (k : κ) (ks : List κ) :
    present f (k :: ks) =
      present (Function.update f k none) ks + if f k = none then 0 else 1 := by
  have hrest : (ks.toFinset.filter fun j => Function.update f k none j ≠ none) =
      (ks.toFinset.filter fun j => f j ≠ none).erase k := by
    ext j
    by_cases hj : j = k
    · simp [hj]
    · simp [hj]
  rw [present, present, hrest, List.toFinset_cons, Finset.filter_insert]
  by_cases hk : f k = none
  · rw [if_neg (not_not_intro hk), if_pos hk, Finset.erase_eq_of_notMem (by simp [hk])]
    rfl
  · rw [if_pos hk, if_neg hk]
    exact card_insert_erase k _

end Lookup

namespace FlatMap

variable {κ : Type u} {ν : Type v} [LinearOrder κ]

/-! ## Insertions -/

/-- An insertion, as a function of the key. -/
theorem find?_insert_update (m : FlatMap κ ν) (k : κ) (v : ν) :
    (m.insert k v).find? = Function.update m.find? k (some v) := by
  funext k'
  rw [find?_insert, Function.update_apply]
  simp only [eq_comm]

theorem insertAll_cons (e : κ × ν) (es : List (κ × ν)) (m : FlatMap κ ν) :
    insertAll (e :: es) m =
      ((insertAll es (m.insert e.1 e.2)).1 + if m.contains e.1 then 0 else 1,
        (insertAll es (m.insert e.1 e.2)).2) := by
  rw [insertAll]
  split_ifs <;> rfl

/-- The last value of a key wins. -/
theorem find?_insertAll (es : List (κ × ν)) (m : FlatMap κ ν) :
    (insertAll es m).2.find? = Lookup.setAll es m.find? := by
  induction es generalizing m with
  | nil => rfl
  | cons e rest ih =>
    refine (ih (m.insert e.1 e.2)).trans ?_
    rw [find?_insert_update]
    rfl

/-- The count of insertions is of the keys that were missing. -/
theorem insertAll_fst (es : List (κ × ν)) (m : FlatMap κ ν) :
    (insertAll es m).1 = Lookup.missing m.find? (es.map Prod.fst) := by
  induction es generalizing m with
  | nil => rfl
  | cons e rest ih =>
    rw [insertAll_cons, List.map_cons, Lookup.missing_cons m.find? e.1 e.2,
      ← find?_insert_update, ← ih, contains]
    cases m.find? e.1 <;> rfl

/-- What is inserted in two parts is counted in two parts. -/
theorem insertAll_append (es es' : List (κ × ν)) (m : FlatMap κ ν) :
    insertAll (es ++ es') m =
      ((insertAll es m).1 + (insertAll es' (insertAll es m).2).1,
        (insertAll es' (insertAll es m).2).2) := by
  induction es generalizing m with
  | nil => exact Prod.ext (Nat.zero_add _).symm rfl
  | cons e rest ih =>
    rw [List.cons_append, insertAll_cons, insertAll_cons, ih]
    exact Prod.ext (Nat.add_right_comm _ _ _) rfl

/-- To insert the same entries again changes nothing. -/
theorem insertAll_again (es : List (κ × ν)) (m : FlatMap κ ν) :
    (insertAll es (insertAll es m).2).2 = (insertAll es m).2 := by
  refine ext_find? fun k => ?_
  rw [find?_insertAll, find?_insertAll, Lookup.setAll_again]

/-- The count is what the size grows by. -/
theorem size_insertAll (es : List (κ × ν)) (m : FlatMap κ ν) :
    (insertAll es m).2.size = m.size + (insertAll es m).1 := by
  induction es generalizing m with
  | nil => rfl
  | cons e rest ih =>
    rw [insertAll_cons, ih, contains]
    -- a new key is counted and adds an entry, an old one does neither
    cases hfind : m.find? e.1 with
    | none =>
      rw [size_insert_new hfind]
      exact (Nat.add_right_comm _ _ _).trans (Nat.add_assoc _ _ _)
    | some v =>
      rw [size_insert_old hfind]
      rfl

/-! ## Erasures -/

/-- An erasure, as a function of the key. -/
theorem find?_erase_update (m : FlatMap κ ν) (k : κ) :
    (m.erase k).find? = Function.update m.find? k none := by
  funext k'
  rw [find?_erase, Function.update_apply]
  simp only [eq_comm]

theorem eraseAll_cons (k : κ) (ks : List κ) (m : FlatMap κ ν) :
    eraseAll (k :: ks) m =
      ((eraseAll ks (m.erase k)).1 + if m.contains k then 1 else 0,
        (eraseAll ks (m.erase k)).2) := by
  rw [eraseAll]
  split_ifs <;> rfl

/-- Erasures, key by key. -/
theorem find?_eraseAll (ks : List κ) (m : FlatMap κ ν) :
    (eraseAll ks m).2.find? = Lookup.unsetAll ks m.find? := by
  induction ks generalizing m with
  | nil => rfl
  | cons k rest ih =>
    refine (ih (m.erase k)).trans ?_
    rw [find?_erase_update]
    rfl

/-- The count of erasures is of the keys that were present. -/
theorem eraseAll_fst (ks : List κ) (m : FlatMap κ ν) :
    (eraseAll ks m).1 = Lookup.present m.find? ks := by
  induction ks generalizing m with
  | nil => rfl
  | cons k rest ih =>
    rw [eraseAll_cons, Lookup.present_cons, ← find?_erase_update, ← ih, contains]
    cases m.find? k <;> rfl

/-- The same, by a property that the keys have if they are present. -/
theorem eraseAll_count [inst : DecidableEq κ] {p : κ → Prop} [DecidablePred p] {ks : List κ}
    {m : FlatMap κ ν} (h : ∀ k ∈ ks, m.find? k ≠ none ↔ p k) :
    (eraseAll ks m).1 = (ks.toFinset.filter p).card := by
  obtain rfl : inst = LinearOrder.toDecidableEq := Subsingleton.elim _ _
  rw [eraseAll_fst, Lookup.present]
  exact congrArg Finset.card (Finset.filter_congr fun k hk => h k (List.mem_toFinset.mp hk))

/-- What is erased in two parts is counted in two parts. -/
theorem eraseAll_append (ks ks' : List κ) (m : FlatMap κ ν) :
    eraseAll (ks ++ ks') m =
      ((eraseAll ks m).1 + (eraseAll ks' (eraseAll ks m).2).1,
        (eraseAll ks' (eraseAll ks m).2).2) := by
  induction ks generalizing m with
  | nil => exact Prod.ext (Nat.zero_add _).symm rfl
  | cons k rest ih =>
    rw [List.cons_append, eraseAll_cons, eraseAll_cons, ih]
    exact Prod.ext (Nat.add_right_comm _ _ _) rfl

/-- To erase the same keys again changes nothing. -/
theorem eraseAll_again (ks : List κ) (m : FlatMap κ ν) :
    (eraseAll ks (eraseAll ks m).2).2 = (eraseAll ks m).2 := by
  refine ext_find? fun k => ?_
  rw [find?_eraseAll, find?_eraseAll, Lookup.unsetAll_eq, Lookup.unsetAll_eq]
  split_ifs <;> rfl

/-- The count is what the size shrinks by. -/
theorem size_eraseAll (ks : List κ) (m : FlatMap κ ν) :
    (eraseAll ks m).2.size + (eraseAll ks m).1 = m.size := by
  induction ks generalizing m with
  | nil => rfl
  | cons k rest ih =>
    have hrest := ih (m.erase k)
    rw [eraseAll_cons, contains]
    -- a key that is not there is erased for nothing and not counted
    cases hfind : m.find? k with
    | none =>
      have hsame : m.erase k = m := put_find? m hfind
      rw [hsame] at hrest ⊢
      exact hrest
    | some v =>
      have hsize := size_erase hfind
      simp only [Option.isSome_some, if_true]
      omega

/-- Nothing can be erased from an empty map. -/
theorem eraseAll_empty (ks : List κ) :
    eraseAll ks (empty : FlatMap κ ν) = (0, empty) := by
  induction ks with
  | nil => rfl
  | cons k rest ih =>
    have hsame : (empty : FlatMap κ ν).erase k = empty := rfl
    rw [eraseAll, hsame, ih]
    rfl

end FlatMap
