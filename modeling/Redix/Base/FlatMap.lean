import Mathlib.Data.List.Pairwise
import Mathlib.Order.Lattice
import Mathlib.Tactic.SplitIfs

/-!
# Flat maps: finite maps as strictly sorted association lists

The container behind `std::flat_map` and (with `Unit` values) `std::flat_set`:
one contiguous, strictly key-sorted sequence of entries. Sortedness is a field
of the structure, so an unsorted or key-duplicating map cannot be built, and
iteration order is part of the value.

- `FlatMap.find?` / `insert` / `erase`: the lookup algebra, each operation with
  its pointwise reading (`find?_insert`, `find?_erase`, `find?_filter`);
- `FlatMap.put`: a write of `Option`: `some` inserts, `none` erases. Most
  updates of a keyed store are one `put`, and `put` composes (`put_put`);
- `FlatMap.rename`: a key takes the place of another; onto a free key it can be
  undone (`rename_back`);
- `FlatMap.ext_find?`: maps with equal lookups are *equal*, entry for entry.
  This is what turns pointwise arguments into equalities of whole stores;
- `size_put`, `values_insert`, `values_erase`: what a write does to the size and
  to the values, these up to their order.
-/

universe u v

/-- A finite map stored as a strictly key-sorted list of entries. -/
structure FlatMap (κ : Type u) (ν : Type v) [LinearOrder κ] where
  /-- The entries, in ascending key order. -/
  entries : List (κ × ν)
  /-- Keys ascend strictly; in particular they are distinct. -/
  sorted : entries.Pairwise (fun a b => a.1 < b.1)
deriving DecidableEq

namespace FlatMap

variable {κ : Type u} {ν : Type v} [LinearOrder κ]

/-! ## Raw list operations -/

/-- Linear search for a key. -/
def lookup (k : κ) : List (κ × ν) → Option ν
  | [] => none
  | e :: rest => if e.1 = k then some e.2 else lookup k rest

/-- Sorted insertion, replacing the value of a key already there. -/
def insertList (k : κ) (v : ν) : List (κ × ν) → List (κ × ν)
  | [] => [(k, v)]
  | e :: rest =>
    if k < e.1 then (k, v) :: e :: rest
    else if e.1 = k then (k, v) :: rest
    else e :: insertList k v rest

/-- Nothing comes in with an insertion but the entry. -/
theorem mem_insertList {k : κ} {v : ν} {e : κ × ν} :
    ∀ {l : List (κ × ν)}, e ∈ insertList k v l → e = (k, v) ∨ e ∈ l
  | [], h => by simpa [insertList] using h
  | a :: rest, h => by
    rw [insertList] at h
    split_ifs at h with hlt heq
    · exact List.mem_cons.mp h
    · rcases List.mem_cons.mp h with h | h
      · exact .inl h
      · exact .inr (List.mem_cons_of_mem a h)
    · rcases List.mem_cons.mp h with h | h
      · exact .inr (h ▸ List.mem_cons_self)
      · exact (mem_insertList h).imp_right (List.mem_cons_of_mem a)

/-- Insertion keeps the order. -/
theorem insertList_sorted {k : κ} {v : ν} :
    ∀ {l : List (κ × ν)}, l.Pairwise (fun a b => a.1 < b.1) →
      (insertList k v l).Pairwise (fun a b => a.1 < b.1)
  | [], _ => List.pairwise_singleton _ _
  | a :: rest, h => by
    obtain ⟨ha, hrest⟩ := List.pairwise_cons.mp h
    rw [insertList]
    -- in front of the first entry, in its place, or behind it
    split_ifs with hlt heq
    · refine List.pairwise_cons.mpr ⟨fun b hb => ?_, h⟩
      rcases List.mem_cons.mp hb with rfl | hb
      · exact hlt
      · exact hlt.trans (ha b hb)
    · exact List.pairwise_cons.mpr ⟨fun b hb => heq ▸ ha b hb, hrest⟩
    · refine List.pairwise_cons.mpr ⟨fun b hb => ?_, insertList_sorted hrest⟩
      rcases mem_insertList hb with rfl | hb
      · exact lt_of_le_of_ne (not_lt.mp hlt) heq
      · exact ha b hb

/-- A lookup after an insertion. -/
theorem lookup_insertList (k k' : κ) (v : ν) :
    ∀ l : List (κ × ν),
      lookup k' (insertList k v l) = if k = k' then some v else lookup k' l
  | [] => rfl
  | a :: rest => by
    have ih := lookup_insertList k k' v rest
    -- it goes in front of the first larger key, replaces an equal one or goes further back
    by_cases hlt : k < a.1
    · rw [insertList, if_pos hlt, lookup]
    · by_cases heq : a.1 = k
      · subst heq
        rw [insertList, if_neg hlt, if_pos rfl, lookup, lookup]
        split_ifs <;> rfl
      · rw [insertList, if_neg hlt, if_neg heq, lookup, lookup, ih]
        by_cases hk : k = k'
        · subst hk
          rw [if_neg heq, if_pos rfl, if_pos rfl]
        · rw [if_neg hk, if_neg hk]

/-- A lookup in what a predicate keeps. No two entries have the key, so dropping one uncovers
none. -/
theorem lookup_filter (p : κ → ν → Bool) (k : κ) :
    ∀ {l : List (κ × ν)}, l.Pairwise (fun a b => a.1 < b.1) →
      lookup k (l.filter fun e => p e.1 e.2) = (lookup k l).filter (p k)
  | [], _ => rfl
  | a :: rest, h => by
    obtain ⟨ha, hrest⟩ := List.pairwise_cons.mp h
    have ih := lookup_filter p k hrest
    by_cases hk : a.1 = k
    · subst hk
      rw [lookup, if_pos rfl]
      by_cases hp : p a.1 a.2
      · rw [List.filter_cons_of_pos (by simpa using hp), lookup, if_pos rfl]
        simp [Option.filter, hp]
      · -- the dropped entry was the only one with this key
        have hnone : lookup a.1 rest = none := by
          clear ih
          induction rest with
          | nil => rfl
          | cons b rest ihr =>
            have hb : a.1 < b.1 := ha b List.mem_cons_self
            rw [lookup, if_neg (ne_of_gt hb)]
            exact ihr (h.sublist ((List.sublist_cons_self b rest).cons_cons a))
              (fun c hc => ha c (List.mem_cons_of_mem b hc))
              (List.pairwise_cons.mp hrest).2
        rw [List.filter_cons_of_neg (by simpa using hp), ih, hnone]
        simp [Option.filter, hp]
    · rw [lookup, if_neg hk, ← ih]
      by_cases hp : p a.1 a.2
      · rw [List.filter_cons_of_pos (by simpa using hp), lookup, if_neg hk]
      · rw [List.filter_cons_of_neg (by simpa using hp)]

/-- In a sorted list, lookup is membership. -/
theorem lookup_eq_some_iff {k : κ} {v : ν} :
    ∀ {l : List (κ × ν)}, l.Pairwise (fun a b => a.1 < b.1) →
      (lookup k l = some v ↔ (k, v) ∈ l)
  | [], _ => by simp [lookup]
  | a :: rest, h => by
    obtain ⟨ha, hrest⟩ := List.pairwise_cons.mp h
    rw [lookup, List.mem_cons]
    split_ifs with hk
    · constructor
      · rintro ⟨⟩
        exact .inl (by rw [← hk])
      · rintro (heq | hmem)
        · rw [← heq]
        -- behind it all keys are larger
        · exact absurd (hk ▸ ha _ hmem) (lt_irrefl _)
    · rw [lookup_eq_some_iff hrest]
      refine ⟨.inr, fun h => h.resolve_left fun heq => hk ?_⟩
      rw [← heq]

/-- No entry comes twice. -/
theorem sorted_nodup {l : List (κ × ν)}
    (h : l.Pairwise (fun a b => a.1 < b.1)) : l.Nodup := by
  refine h.imp fun {a b} hab => ?_
  rintro rfl
  exact lt_irrefl _ hab

/-- Strictly sorted lists with equal lookups are equal. -/
theorem eq_of_lookup_eq :
    ∀ {l m : List (κ × ν)}, l.Pairwise (fun a b => a.1 < b.1) →
      m.Pairwise (fun a b => a.1 < b.1) → (∀ k, lookup k l = lookup k m) → l = m
  | l, m, hl, hm, h =>
    List.Perm.eq_of_pairwise
      (fun a b _ _ hab hba => absurd hab (lt_asymm hba)) hl hm
      ((List.perm_ext_iff_of_nodup (sorted_nodup hl) (sorted_nodup hm)).mpr
        fun ⟨k, v⟩ => by
          rw [← lookup_eq_some_iff hl, h, lookup_eq_some_iff hm])

/-! ## The map operations -/

/-- The map with no entries. -/
def empty : FlatMap κ ν := ⟨[], List.Pairwise.nil⟩

/-- The value stored under a key. -/
def find? (m : FlatMap κ ν) (k : κ) : Option ν := lookup k m.entries

/-- Whether a key is present. -/
def contains (m : FlatMap κ ν) (k : κ) : Bool := (m.find? k).isSome

/-- `m[k] = v`: insert, or assign over the present value. -/
def insert (m : FlatMap κ ν) (k : κ) (v : ν) : FlatMap κ ν :=
  ⟨insertList k v m.entries, insertList_sorted m.sorted⟩

/-- Keep the entries that satisfy a predicate. -/
def filter (m : FlatMap κ ν) (p : κ → ν → Bool) : FlatMap κ ν :=
  ⟨m.entries.filter fun e => p e.1 e.2, m.sorted.filter _⟩

/-- Remove a key. -/
def erase (m : FlatMap κ ν) (k : κ) : FlatMap κ ν :=
  m.filter fun k' _ => !decide (k' = k)

/-- Write an optional value: `some` inserts, `none` erases. -/
def put (m : FlatMap κ ν) (k : κ) : Option ν → FlatMap κ ν
  | some v => m.insert k v
  | none => m.erase k

/-- The number of entries. -/
def size (m : FlatMap κ ν) : Nat := m.entries.length

/-- Whether there are no entries. -/
def isEmpty (m : FlatMap κ ν) : Bool := m.entries.isEmpty

/-- The keys, ascending. -/
def keys (m : FlatMap κ ν) : List κ := m.entries.map Prod.fst

/-- The values, in key order. -/
def values (m : FlatMap κ ν) : List ν := m.entries.map Prod.snd

/-- Insert or assign the entries one after another; the count is of keys that
were new when their turn came. -/
def insertAll : List (κ × ν) → FlatMap κ ν → Nat × FlatMap κ ν
  | [], m => (0, m)
  | e :: rest, m =>
    let (added, m') := insertAll rest (m.insert e.1 e.2)
    (if m.contains e.1 then added else added + 1, m')

/-- Erase the keys one after another; the count is of keys that were present
when their turn came. -/
def eraseAll : List κ → FlatMap κ ν → Nat × FlatMap κ ν
  | [], m => (0, m)
  | k :: rest, m =>
    let (removed, m') := eraseAll rest (m.erase k)
    (if m.contains k then removed + 1 else removed, m')

/-! ## Lookup algebra -/

/-- An insertion, key by key. -/
theorem find?_insert (m : FlatMap κ ν) (k k' : κ) (v : ν) :
    (m.insert k v).find? k' = if k = k' then some v else m.find? k' :=
  lookup_insertList k k' v m.entries

@[simp] theorem find?_insert_self (m : FlatMap κ ν) (k : κ) (v : ν) :
    (m.insert k v).find? k = some v := by
  rw [find?_insert, if_pos rfl]

/-- What is found right after an insertion was inserted. -/
theorem eq_of_find?_insert {m : FlatMap κ ν} {k : κ} {v v' : ν}
    (h : (m.insert k v).find? k = some v') : v = v' :=
  Option.some.inj ((m.find?_insert_self k v).symm.trans h)

/-- A filter, key by key. -/
theorem find?_filter (m : FlatMap κ ν) (p : κ → ν → Bool) (k : κ) :
    (m.filter p).find? k = (m.find? k).filter (p k) :=
  lookup_filter p k m.sorted

/-- An erasure, key by key. -/
theorem find?_erase (m : FlatMap κ ν) (k k' : κ) :
    (m.erase k).find? k' = if k = k' then none else m.find? k' := by
  rw [erase, find?_filter]
  cases m.find? k' with
  | none => simp
  | some v =>
    by_cases hk : k = k'
    · simp [Option.filter, hk]
    · simp [Option.filter, hk, Ne.symm hk]

/-- A write, key by key. -/
theorem find?_put (m : FlatMap κ ν) (k k' : κ) (o : Option ν) :
    (m.put k o).find? k' = if k = k' then o else m.find? k' := by
  cases o with
  | none => exact find?_erase m k k'
  | some v => exact find?_insert m k k' v

@[simp] theorem find?_put_self (m : FlatMap κ ν) (k : κ) (o : Option ν) :
    (m.put k o).find? k = o := by
  rw [find?_put, if_pos rfl]

theorem find?_put_ne (m : FlatMap κ ν) {k k' : κ} (h : k ≠ k') (o : Option ν) :
    (m.put k o).find? k' = m.find? k' := by
  rw [find?_put, if_neg h]

/-- The entries are the pairs found. -/
theorem mem_entries_iff (m : FlatMap κ ν) {k : κ} {v : ν} :
    (k, v) ∈ m.entries ↔ m.find? k = some v :=
  (lookup_eq_some_iff m.sorted).symm

theorem contains_eq_false {m : FlatMap κ ν} {k : κ} : m.contains k = false ↔ m.find? k = none := by
  rw [contains, Option.isSome_eq_false_iff, Option.isNone_iff_eq_none]

/-- The keys are those under which something is found. -/
theorem mem_keys (m : FlatMap κ ν) {k : κ} : k ∈ m.keys ↔ (m.find? k).isSome := by
  rw [keys, List.mem_map, Option.isSome_iff_exists]
  constructor
  · rintro ⟨⟨k', v⟩, hmem, rfl⟩
    exact ⟨v, m.mem_entries_iff.mp hmem⟩
  · rintro ⟨v, hfind⟩
    exact ⟨(k, v), m.mem_entries_iff.mpr hfind, rfl⟩

/-- No key comes twice. -/
theorem keys_nodup (m : FlatMap κ ν) : m.keys.Nodup :=
  List.pairwise_map.mpr (m.sorted.imp ne_of_lt)

/-- **Extensionality**: maps with equal lookups are equal, entry for entry. -/
theorem ext_find? {m m' : FlatMap κ ν} (h : ∀ k, m.find? k = m'.find? k) :
    m = m' := by
  obtain ⟨l, hl⟩ := m
  obtain ⟨l', hl'⟩ := m'
  obtain rfl : l = l' := eq_of_lookup_eq hl hl' h
  rfl

/-- To erase a key is to leave its entry out. -/
theorem entries_erase {m : FlatMap κ ν} {before after : List (κ × ν)} {e : κ × ν}
    (h : m.entries = before ++ e :: after) : (m.erase e.1).entries = before ++ after := by
  have hsorted := m.sorted
  rw [h, List.pairwise_append, List.pairwise_cons] at hsorted
  obtain ⟨-, ⟨hafter, -⟩, hbefore⟩ := hsorted
  show m.entries.filter (fun e' => !decide (e'.1 = e.1)) = before ++ after
  rw [h, List.filter_append, List.filter_cons_of_neg (by simp)]
  congr 1
  -- the keys are sorted, so those before and after differ from it
  · refine List.filter_eq_self.mpr fun e' he' => ?_
    simpa using (hbefore e' he' e List.mem_cons_self).ne
  · refine List.filter_eq_self.mpr fun e' he' => ?_
    simpa using (hafter e' he').ne'

/-! ## Emptiness -/

/-- There is an entry after an insertion. -/
theorem insert_isEmpty (m : FlatMap κ ν) (k : κ) (v : ν) :
    (m.insert k v).isEmpty = false := by
  have hfind := find?_insert_self m k v
  cases hentries : (m.insert k v).entries with
  | nil => rw [find?, hentries] at hfind; cases hfind
  | cons e rest => rw [isEmpty, hentries]; rfl

/-- Inserting at least one entry leaves a non-empty map. -/
theorem insertAll_isEmpty {es : List (κ × ν)} (hes : es ≠ []) (m : FlatMap κ ν) :
    (insertAll es m).2.isEmpty = false := by
  induction es generalizing m with
  | nil => exact absurd rfl hes
  | cons e rest ih =>
    show (insertAll rest (m.insert e.1 e.2)).2.isEmpty = false
    cases rest with
    | nil => exact insert_isEmpty m e.1 e.2
    | cons e' rest => exact ih (List.cons_ne_nil e' rest) _

/-- There is one map without entries. -/
theorem eq_empty_of_isEmpty {m : FlatMap κ ν} (h : m.isEmpty = true) : m = empty := by
  obtain ⟨entries, hsorted⟩ := m
  obtain rfl : entries = [] := List.isEmpty_iff.mp h
  rfl

theorem size_pos {m : FlatMap κ ν} (h : m.isEmpty = false) : 0 < m.size := by
  rw [isEmpty, List.isEmpty_eq_false_iff] at h
  exact List.length_pos_iff.mpr h

/-! ## Sizes -/

/-- A new key adds its entry to those there. -/
theorem insertList_perm {k : κ} (v : ν) :
    ∀ {l : List (κ × ν)}, lookup k l = none → (insertList k v l).Perm ((k, v) :: l)
  | [], _ => List.Perm.refl _
  | a :: rest, h => by
    rw [lookup] at h
    split_ifs at h with heq
    rw [insertList, if_neg heq]
    split_ifs
    · exact .refl _
    · exact ((insertList_perm v h).cons a).trans (.swap _ _ _)

/-- An erased entry comes back with an insertion. -/
theorem insert_erase {m : FlatMap κ ν} {k : κ} {v : ν} (h : m.find? k = some v) :
    (m.erase k).insert k v = m := by
  refine ext_find? fun k' => ?_
  rw [find?_insert, find?_erase]
  by_cases hk : k = k'
  · rw [if_pos hk, ← hk, h]
  · rw [if_neg hk, if_neg hk]

/-- A new key counts. -/
theorem size_insert_new {m : FlatMap κ ν} {k : κ} (h : m.find? k = none) (v : ν) :
    (m.insert k v).size = m.size + 1 :=
  (insertList_perm v h).length_eq

/-- An erased key no longer counts. -/
theorem size_erase {m : FlatMap κ ν} {k : κ} {v : ν} (h : m.find? k = some v) :
    (m.erase k).size + 1 = m.size := by
  have hgone : (m.erase k).find? k = none := by rw [find?_erase, if_pos rfl]
  rw [← size_insert_new hgone v, insert_erase h]

/-- A key that is there already does not count again. -/
theorem size_insert_old {m : FlatMap κ ν} {k : κ} {v : ν} (h : m.find? k = some v) (v' : ν) :
    (m.insert k v').size = m.size := by
  have hgone : (m.erase k).find? k = none := by rw [find?_erase, if_pos rfl]
  have hagain : (m.erase k).insert k v' = m.insert k v' := by
    refine ext_find? fun k' => ?_
    rw [find?_insert, find?_insert, find?_erase]
    by_cases hk : k = k'
    · rw [if_pos hk, if_pos hk]
    · rw [if_neg hk, if_neg hk, if_neg hk]
  rw [← hagain, size_insert_new hgone, size_erase h]

/-! ## How writes compose -/

/-- The later of two writes to a key is the one that counts. -/
@[simp] theorem put_put (m : FlatMap κ ν) (k : κ) (o o' : Option ν) :
    (m.put k o).put k o' = m.put k o' := by
  refine ext_find? fun k' => ?_
  rw [find?_put, find?_put, find?_put]
  split_ifs <;> rfl

/-- Writing back what is there changes nothing. -/
theorem put_find? (m : FlatMap κ ν) {k : κ} {o : Option ν} (h : m.find? k = o) :
    m.put k o = m := by
  refine ext_find? fun k' => ?_
  rw [find?_put]
  split_ifs with hk
  · rw [← hk, h]
  · rfl

/-- A write changes the size by the key that comes or goes. -/
theorem size_put (m : FlatMap κ ν) (k : κ) (o : Option ν) :
    (m.put k o).size + (m.find? k).isSome.toNat = m.size + o.isSome.toNat := by
  cases hfind : m.find? k with
  | none =>
    cases o with
    | none => rw [put_find? m hfind]
    | some v => exact size_insert_new hfind v
  | some v =>
    cases o with
    | none => exact size_erase hfind
    | some v' => exact congrArg (· + 1) (size_insert_old hfind v')

/-- A filter sees a write through the predicate. -/
theorem filter_put (m : FlatMap κ ν) (p : κ → ν → Bool) (k : κ) (o : Option ν) :
    (m.put k o).filter p = (m.filter p).put k (o.filter (p k)) := by
  refine ext_find? fun k' => ?_
  rw [find?_filter, find?_put, find?_put, find?_filter]
  split_ifs with hk
  · rw [hk]
  · rfl

theorem erase_eq_put (m : FlatMap κ ν) (k : κ) : m.erase k = m.put k none := rfl

/-- An insertion absorbs an earlier write to its key. -/
@[simp] theorem insert_put (m : FlatMap κ ν) (k : κ) (o : Option ν) (v : ν) :
    (m.put k o).insert k v = m.put k (some v) :=
  put_put m k o (some v)

/-- An erasure absorbs an earlier write to its key. -/
@[simp] theorem erase_put (m : FlatMap κ ν) (k : κ) (o : Option ν) :
    (m.put k o).erase k = m.put k none :=
  put_put m k o none

/-! ## Values -/

/-- A new key adds its value. -/
theorem values_insert_new {m : FlatMap κ ν} {k : κ} (h : m.find? k = none) (v : ν) :
    (m.insert k v).values.Perm (v :: m.values) :=
  (insertList_perm v h).map Prod.snd

/-- An erased key takes its value with it. -/
theorem values_erase {m : FlatMap κ ν} {k : κ} {v : ν} (h : m.find? k = some v) :
    m.values.Perm (v :: (m.erase k).values) := by
  have hgone : (m.erase k).find? k = none := by rw [find?_erase, if_pos rfl]
  have hperm := values_insert_new hgone v
  rwa [insert_erase h] at hperm

/-- A key gets a value in place of the one it may have. -/
theorem values_insert (m : FlatMap κ ν) (k : κ) (v : ν) :
    (m.insert k v).values.Perm (v :: (m.erase k).values) := by
  have hagain : (m.insert k v).erase k = m.erase k := put_put m k (some v) none
  have hperm := values_erase (m.find?_insert_self k v)
  rwa [hagain] at hperm

/-- What is found is a value. -/
theorem mem_values_of_find? {m : FlatMap κ ν} {k : κ} {v : ν} (h : m.find? k = some v) :
    v ∈ m.values :=
  List.mem_map.mpr ⟨(k, v), m.mem_entries_iff.mpr h, rfl⟩

/-! ## Renaming -/

/-- Move what is under a key to another key, over what is there. -/
def rename (m : FlatMap κ ν) (k k' : κ) : FlatMap κ ν :=
  match m.find? k with
  | none => m
  | some v => (m.put k none).put k' (some v)

/-- Nothing is moved from a free key. -/
theorem rename_of_none {m : FlatMap κ ν} {k : κ} (h : m.find? k = none) (k' : κ) :
    m.rename k k' = m := by
  rw [rename, h]

/-- What is moved takes the place of what is there. -/
theorem rename_of_some {m : FlatMap κ ν} {k : κ} {v : ν} (h : m.find? k = some v) (k' : κ) :
    m.rename k k' = (m.put k none).put k' (some v) := by
  rw [rename, h]

/-- Onto itself, a key stays. -/
@[simp] theorem rename_self (m : FlatMap κ ν) (k : κ) : m.rename k k = m := by
  cases h : m.find? k with
  | none => exact rename_of_none h k
  | some v => rw [rename_of_some h, put_put, put_find? m h]

/-- Onto a free key and back, nothing changes. -/
theorem rename_back {m : FlatMap κ ν} {k' : κ} (hfree : m.find? k' = none) (k : κ) :
    (m.rename k k').rename k' k = m := by
  cases h : m.find? k with
  | none => rw [rename_of_none h, rename_of_none hfree]
  | some v =>
    have hmoved : (m.rename k k').find? k' = some v := by
      rw [rename_of_some h, find?_put_self]
    rw [rename_of_some hmoved, rename_of_some h, put_put]
    -- the old key, the new key, and any other
    refine ext_find? fun j => ?_
    rw [find?_put, find?_put, find?_put]
    split_ifs with hk hk'
    · rw [← hk, h]
    · rw [← hk', hfree]
    · rfl

end FlatMap
