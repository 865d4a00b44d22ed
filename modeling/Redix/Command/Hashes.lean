import Redix.Base.BulkWrites
import Redix.Base.Simulation
import Redix.Command.Effects

/-!
# Hashes are finite maps

The commands on a hash, against a reference that keeps a partial function from fields to
values (`Lookup`). Between the two stands the sorted map that the entry holds: the store has
no empty hashes, so an absent key stands for the empty map (`hashEntry`).

- `HashOp`: the writes, with their commands and what they do to the reference;
- `dispatch_hash`: one write keeps the simulation and answers the reference's count;
- `HashShows`: what the reads say of a map, and of each other;
- `hashes_are_maps`: both for whole runs.
-/

namespace Redix

/-! ## The reference -/

/-- A write to a hash. -/
inductive HashOp where
  | hset (fvPairs : List (Bytes × Bytes)) (h : fvPairs ≠ [])
  | hdel (fields : List Bytes) (h : fields ≠ [])

namespace HashOp

/-- The write as a command on a key. -/
def command (key : Bytes) : HashOp → Command
  | hset fvPairs _ => ⟨ascii "HSET", key :: fvPairs.flatMap fun pair => [pair.1, pair.2]⟩
  | hdel fields _ => ⟨ascii "HDEL", key :: fields⟩

/-- The reference: how many fields are new, or removed, and the map afterwards. -/
def apply : HashOp → Lookup Bytes Bytes → Nat × Lookup Bytes Bytes
  | hset fvPairs _, map => (map.missing (fvPairs.map Prod.fst), Lookup.setAll fvPairs map)
  | hdel fields _, map => (map.present fields, Lookup.unsetAll fields map)

/-- The write as the store does it. -/
def onHash : HashOp → FlatMap Bytes Bytes → Nat × FlatMap Bytes Bytes
  | hset fvPairs _ => FlatMap.insertAll fvPairs
  | hdel fields _ => FlatMap.eraseAll fields

/-- The sorted map follows the reference. -/
theorem onHash_eq (op : HashOp) (data : FlatMap Bytes Bytes) :
    (op.onHash data).1 = (op.apply data.find?).1 ∧
      (op.onHash data).2.find? = (op.apply data.find?).2 := by
  cases op with
  | hset fvPairs h => exact ⟨FlatMap.insertAll_fst _ _, FlatMap.find?_insertAll _ _⟩
  | hdel fields h => exact ⟨FlatMap.eraseAll_fst _ _, FlatMap.find?_eraseAll _ _⟩

end HashOp

/-! ## One write -/

/-- The entry that stands for a map: none for the empty one. -/
def hashEntry (data : FlatMap Bytes Bytes) : Option Entry :=
  if data.isEmpty then none else some ⟨.hash data, 0⟩

variable {now : UInt64} {s : Store} {key : Bytes} {data : FlatMap Bytes Bytes}

/-- A hash has no deadline, so it is live at any time. -/
theorem findLive_hashEntry (h : s.data.find? key = hashEntry data) :
    findLive now s.data key = hashEntry data := by
  rw [findLive_eq, h, hashEntry]
  split_ifs <;> rfl

/-- Pairs that are written one after another are read as they are. -/
theorem pairs_flatMap (ps : List (Bytes × Bytes)) :
    pairs (ps.flatMap fun pair => [pair.1, pair.2]) = ps := by
  induction ps with
  | nil => rfl
  | cons pair rest ih =>
    rw [List.flatMap_cons]
    exact congrArg (pair :: ·) ih

/-- The arguments of whole pairs, one at least. -/
theorem length_flatMap_pairs {ps : List (Bytes × Bytes)} (h : ps ≠ []) :
    2 ≤ (ps.flatMap fun pair => [pair.1, pair.2]).length ∧
      (ps.flatMap fun pair => [pair.1, pair.2]).length % 2 = 0 := by
  have hlen : (ps.flatMap fun pair => [pair.1, pair.2]).length = 2 * ps.length := by
    induction ps with
    | nil => rfl
    | cons pair rest ih =>
      by_cases hrest : rest = []
      · rw [hrest]
        rfl
      · rw [List.flatMap_cons, List.length_append, ih hrest, List.length_cons]
        simp only [List.length_cons, List.length_nil]
        omega
  have hpos := List.length_pos_iff.mpr h
  omega

/-- The write that a command parses to. -/
def HashOp.update : HashOp → Update
  | hset _ h => .hset _ (length_flatMap_pairs h).1
  | hdel fields _ => .remove hashValue fields fun _ h => h

/-- The write, done on the entry that stands for a map. -/
theorem HashOp.update_run (op : HashOp) (data : FlatMap Bytes Bytes) :
    op.update.run (hashEntry data) =
      (.count (op.onHash data).1, some (hashEntry (op.onHash data).2)) := by
  cases op with
  | hset fvPairs h =>
    have hafter : hashEntry (FlatMap.insertAll fvPairs data).2 =
        some ⟨.hash (FlatMap.insertAll fvPairs data).2, 0⟩ := by
      rw [hashEntry, FlatMap.insertAll_isEmpty h]
      rfl
    simp only [update, Update.hset, pairs_flatMap, onHash, hafter]
    -- an absent key is written as a fresh hash
    rw [hashEntry]
    split_ifs with hempty
    · rw [FlatMap.eq_empty_of_isEmpty hempty]
      rfl
    · rfl
  | hdel fields h =>
    simp only [update, onHash]
    rw [hashEntry]
    split_ifs with hempty
    · rw [FlatMap.eq_empty_of_isEmpty hempty, FlatMap.eraseAll_empty]
      rfl
    · rfl

/-- The arguments of `HSET` are parsed to the pairs. -/
theorem hset_parse {fvPairs : List (Bytes × Bytes)} (h : fvPairs ≠ []) :
    (if hlen : 2 ≤ (fvPairs.flatMap fun pair => [pair.1, pair.2]).length ∧
        (fvPairs.flatMap fun pair => [pair.1, pair.2]).length % 2 = 0
      then Except.ok (Update.hset _ hlen.1) else .error Reply.wrongArity) =
      .ok (HashOp.hset fvPairs h).update :=
  dif_pos (length_flatMap_pairs h)

/-- **One step of the simulation**: a write to a hash answers its count and leaves the entry
that stands for the map afterwards. -/
theorem dispatch_hash (now : UInt64) (op : HashOp) (h : s.data.find? key = hashEntry data) :
    (dispatch now (op.command key) s).1 = respCount (op.onHash data).1 ∧
      (dispatch now (op.command key) s).2.data.find? key = hashEntry (op.onHash data).2 := by
  have hserved : dispatch now (op.command key) s = served now s key op.update.run := by
    cases op with
    | hset _ hne =>
      have hrow : specTable.lookup (ascii "HSET") = some .hset := rfl
      exact dispatch_update hrow (hset_parse hne)
    | hdel _ hne =>
      have hrow : specTable.lookup (ascii "HDEL") = some .hdel := rfl
      exact dispatch_update hrow (dif_neg hne)
  rw [hserved, served, findLive_hashEntry h, op.update_run]
  exact ⟨rfl, FlatMap.find?_put_self _ _ _⟩

/-! ## Reads -/

/-- What the commands show of a hash when it is the given map: whether the key is live, and
the fields in order, with everything that is read off them. -/
structure HashShows (now : UInt64) (s : Store) (key : Bytes) (map : Lookup Bytes Bytes) :
    Prop where
  live : (findLive now s.data key).isSome ↔ ∃ field, map field ≠ none
  listed : ∃ fields values : List Bytes, fields.Pairwise (· < ·) ∧
    (∀ field, field ∈ fields ↔ map field ≠ none) ∧ values.map some = fields.map map ∧
    (dispatch now ⟨ascii "HLEN", [key]⟩ s).1 = respCount fields.length ∧
    (dispatch now ⟨ascii "HKEYS", [key]⟩ s).1 = stringArray fields ∧
    (dispatch now ⟨ascii "HVALS", [key]⟩ s).1 = stringArray values ∧
    (dispatch now ⟨ascii "HGETALL", [key]⟩ s).1 =
      stringArray ((fields.zip values).flatMap fun e => [e.1, e.2]) ∧
    ∀ field, (dispatch now ⟨ascii "HEXISTS", [key, field]⟩ s).1 = respBool (field ∈ fields)
  get : ∀ field, (dispatch now ⟨ascii "HGET", [key, field]⟩ s).1 =
    ((map field).map respBulk).getD respNullBulk

/-- A read of the entry that stands for a map, with what it reports of an empty one as its
default. -/
theorem orDefault_run {β : Type} {default : β} {reply : β → Reply}
    {hreply : ∀ b, (reply b).isError = false} {f : FlatMap Bytes Bytes → β}
    (hdefault : default = f FlatMap.empty) :
    (Look.orDefault hashValue default reply hreply f).run (hashEntry data) = reply (f data) := by
  rw [hashEntry]
  split_ifs with hempty
  · rw [FlatMap.eq_empty_of_isEmpty hempty, ← hdefault]
    rfl
  · rfl

/-- The reply to a read. -/
theorem dispatch_lookHash {name : Bytes} {rest : List Bytes}
    {parse : UInt64 → List Bytes → Except Reply Look} {l : Look} {reply : Reply}
    (hrow : specTable.lookup name = some (.look parse)) (hparse : parse now rest = .ok l)
    (h : s.data.find? key = hashEntry data) (hrun : l.run (hashEntry data) = reply) :
    (dispatch now ⟨name, key :: rest⟩ s).1 = reply.bytes := by
  rw [dispatch_look hrow hparse, findLive_hashEntry h, hrun]

/-- Keys and values are listed in the same order. -/
theorem zip_keys_values (m : FlatMap Bytes Bytes) : m.keys.zip m.values = m.entries := by
  rw [FlatMap.keys, FlatMap.values]
  induction m.entries with
  | nil => rfl
  | cons e rest ih => rw [List.map_cons, List.map_cons, List.zip_cons_cons, ih]

/-- The values are those under the keys. -/
theorem values_eq (m : FlatMap Bytes Bytes) : m.values.map some = m.keys.map m.find? := by
  rw [FlatMap.keys, FlatMap.values, List.map_map, List.map_map]
  exact List.map_congr_left fun e he => (m.mem_entries_iff.mp he).symm

/-- The reads of the entry that stands for a map. -/
theorem hashShows_of_find? (h : s.data.find? key = hashEntry data) :
    HashShows now s key data.find? where
  live := by
    rw [findLive_hashEntry h, hashEntry]
    -- an empty hash is no entry, so a key is live when it has a field
    cases hempty : data.isEmpty with
    | true =>
      rw [FlatMap.eq_empty_of_isEmpty hempty]
      refine iff_of_false Bool.false_ne_true ?_
      rintro ⟨field, hfield⟩
      exact hfield rfl
    | false =>
      obtain ⟨e, he⟩ := List.exists_mem_of_length_pos (FlatMap.size_pos hempty)
      refine iff_of_true rfl ⟨e.1, ?_⟩
      rw [data.mem_entries_iff.mp he]
      exact Option.some_ne_none e.2
  listed := by
    have hmem (field : Bytes) : field ∈ data.keys ↔ data.find? field ≠ none :=
      data.mem_keys.trans Option.isSome_iff_ne_none
    have hlen : specTable.lookup (ascii "HLEN") = some .hlen := rfl
    have hkeys : specTable.lookup (ascii "HKEYS") = some .hkeys := rfl
    have hvals : specTable.lookup (ascii "HVALS") = some .hvals := rfl
    have hgetall : specTable.lookup (ascii "HGETALL") = some .hgetall := rfl
    have hexists : specTable.lookup (ascii "HEXISTS") = some .hexists := rfl
    refine ⟨data.keys, data.values, List.pairwise_map.mpr data.sorted, hmem, values_eq data,
      ?_, ?_, ?_, ?_, fun field => ?_⟩
    · rw [dispatch_lookHash hlen rfl h (orDefault_run (f := FlatMap.size) rfl), FlatMap.keys,
        List.length_map]
      rfl
    · rw [dispatch_lookHash hkeys rfl h (orDefault_run (f := FlatMap.keys) rfl), bytes_strings]
    · rw [dispatch_lookHash hvals rfl h (orDefault_run (f := FlatMap.values) rfl),
        bytes_strings]
    · rw [dispatch_lookHash hgetall rfl h
        (orDefault_run (f := fun data => data.entries.flatMap fun e => [e.1, e.2]) rfl),
        bytes_strings, zip_keys_values]
    · have hcontains : decide (field ∈ data.keys) = data.contains field := by
        simp only [FlatMap.contains, data.mem_keys, Bool.decide_eq_true]
      rw [dispatch_lookHash hexists rfl h
        (orDefault_run (f := fun data => data.contains field) rfl), hcontains]
      rfl
  get field := by
    have hget : specTable.lookup (ascii "HGET") = some .hget := rfl
    rw [dispatch_lookHash hget rfl h (orDefault_run (f := fun data => data.find? field) rfl)]
    cases data.find? field <;> rfl

/-! ## Runs -/

/-- The key stands for the map: its entry is that of a sorted map with the same fields. -/
def HoldsHash (key : Bytes) (s : Store) (map : Lookup Bytes Bytes) : Prop :=
  ∃ data, s.data.find? key = hashEntry data ∧ data.find? = map

/-- One write, in the terms of the reference. -/
theorem dispatch_holdsHash (now : UInt64) (op : HashOp) {map : Lookup Bytes Bytes}
    (h : HoldsHash key s map) :
    (dispatch now (op.command key) s).1 = respCount (op.apply map).1 ∧
      HoldsHash key (dispatch now (op.command key) s).2 (op.apply map).2 := by
  obtain ⟨data, hfind, rfl⟩ := h
  obtain ⟨hreply, hafter⟩ := dispatch_hash now op hfind
  obtain ⟨hcount, hmap⟩ := op.onHash_eq data
  exact ⟨by rw [hreply, hcount], _, hafter, hmap⟩

/-- A write at a clock reading. -/
def HashOp.serve (key : Bytes) (step : UInt64 × HashOp) (s : Store) : Bytes × Store :=
  dispatch step.1 (step.2.command key) s

/-- The store simulates the reference. -/
def hashSimulation (key : Bytes) : Simulates (HashOp.serve key) HashOp.apply where
  valid _ := True
  op := Prod.snd
  shown n := respCount n
  related := HoldsHash key
  step_eq {step _ _} _ h := dispatch_holdsHash step.1 step.2 h

/-- **Hashes are finite maps.** From a store without the key, in any run of `HSET` and `HDEL`
on it, at whatever clock readings: the replies count the fields that are new, and those that
are removed; and afterwards the key stands for the map that results, for every command that
reads it. -/
theorem hashes_are_maps (key : Bytes) (steps : List (UInt64 × HashOp)) {s : Store}
    (habsent : s.data.find? key = none) :
    let reference := runSteps HashOp.apply (steps.map Prod.snd) fun _ => none
    (runSteps (HashOp.serve key) steps s).1 = reference.1.map (fun n : Nat => respCount n) ∧
      ∀ now, HashShows now (runSteps (HashOp.serve key) steps s).2 key reference.2 := by
  intro reference
  have hstart : HoldsHash key s fun _ => none := ⟨.empty, habsent, rfl⟩
  obtain ⟨hreplies, data, hfind, hmap⟩ :=
    (hashSimulation key).run_eq (fun _ _ => trivial) hstart
  refine ⟨hreplies, fun now => ?_⟩
  have hshows : HashShows now (runSteps (HashOp.serve key) steps s).2 key data.find? :=
    hashShows_of_find? hfind
  rwa [hmap] at hshows

/-- Fields that repeat, and one that is removed twice. -/
theorem hashes_are_maps_repeated :
    let steps : List (UInt64 × HashOp) := [
      (7, .hset [(ascii "a", ascii "1"), (ascii "b", ascii "2"), (ascii "a", ascii "3")]
        (by decide)),
      (9, .hdel [ascii "b", ascii "b", ascii "c"] (by decide))]
    let served := runSteps (HashOp.serve (ascii "h")) steps Store.empty
    served.1 = [respCount 2, respCount 1] ∧
      (dispatch 9 ⟨ascii "HGET", [ascii "h", ascii "a"]⟩ served.2).1 = respBulk (ascii "3") := by
  intro steps served
  obtain ⟨hreplies, hshows⟩ := hashes_are_maps (ascii "h") steps (s := .empty) rfl
  exact ⟨hreplies.trans (by decide), ((hshows 9).get (ascii "a")).trans (by decide)⟩

end Redix
