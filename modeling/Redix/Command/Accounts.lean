import Redix.Base.BulkWrites
import Redix.Command.Deadlines
import Redix.Command.Lists

/-!
# Counts account for the data

Clients learn from the replies alone what a command did. In a store without empty
collections, the counts that `DEL` and the commands on collections reply with are those by
which the sizes change: of the keyspace (`DBSIZE`), or of the collection (`HLEN`, `SCARD`,
`LLEN`), an expired entry being none.

- `Holds`: the collection under a key, an absent key holding the empty one;
- `add_holds`, `remove_holds`, `pop_holds`: what the writes do to it;
- `dbsize_served`: what any write to one key does to the number of live keys;
- `counts_account`: the commands.
-/

namespace Redix

open Keyspace Update

variable {now : UInt64} {s : Store} {key : Bytes} {o : Option Entry}

/-! ## Sizes -/

/-- The number of elements of a collection. -/
def RedisValue.size : RedisValue → Nat
  | string _ => 0
  | list data => data.length
  | hash data => data.size
  | set data => data.size

/-- The number of elements under a key: none if it is not live. -/
def Store.sizeAt (now : UInt64) (s : Store) (key : Bytes) : Nat :=
  (findLive now s.data key).elim 0 fun e => e.value.size

/-- An entry holds a collection: an absent one the empty collection. -/
inductive Holds {α : Type} (T : ValueKind α) (empty : α) : Option Entry → α → Prop
  | absent : Holds T empty none empty
  | stored (d : α) (deadline : UInt64) : Holds T empty (some ⟨T.wrap d, deadline⟩) d

section holds

variable {α ν : Type} {T : ValueKind α} {empty d : α}

/-- The size of an entry is the size of what it holds. -/
theorem Holds.size_eq (h : Holds T empty o d) (hempty : (T.wrap empty).size = 0) :
    (o.elim 0 fun e => e.value.size) = (T.wrap d).size := by
  cases h with
  | absent => exact hempty.symm
  | stored deadline => rfl

/-- The commands that count the elements. -/
theorem Holds.count_run {size : α → Nat} (h : Holds T empty o d) (hempty : size empty = 0) :
    (Look.count T size).run o = .count (size d) := by
  cases h with
  | absent =>
    rw [hempty]
    rfl
  | stored deadline =>
    simp only [Look.count, Look.orDefault, Look.run, T.get?_wrap]

/-- A write that is not refused finds a collection, and leaves one that lives as long. -/
theorem add_holds {grow : α → Nat × α} {hgrow : ∀ d, (T.wrap (grow d).2).NonEmpty}
    (hok : ((Update.add T empty grow hgrow).run o).1.isError = false) : ∃ d o',
    Holds T empty o d ∧ (Update.add T empty grow hgrow).run o = (.count (grow d).1, some o') ∧
    Holds T empty o' (grow d).2 ∧ Outlives o o' := by
  cases o with
  -- a missing key counts as an empty collection
  | none => exact ⟨empty, _, .absent, rfl, .stored _ 0, outlives_noDeadline none _⟩
  | some e =>
    cases hget : T.get? e.value with
    | none =>
      rw [add_wrong hget] at hok
      cases hok
    | some d =>
      obtain ⟨value, deadline⟩ := e
      obtain rfl : value = T.wrap d := (T.get?_eq_some value d).mp hget
      exact ⟨d, _, .stored d deadline, add_right hget, .stored _ deadline,
        outlives_value _ _ deadline⟩

/-- A removal without an error, on what is held. -/
theorem remove_holds {T : ValueKind (FlatMap Bytes ν)} {elems : List Bytes}
    {hT : ∀ d, d.isEmpty = false → (T.wrap d).NonEmpty}
    (hok : ((Update.remove T elems hT).run o).1.isError = false) : ∃ d o',
    Holds T FlatMap.empty o d ∧
    (Update.remove T elems hT).run o = (.count (FlatMap.eraseAll elems d).1, some o') ∧
    Holds T FlatMap.empty o' (FlatMap.eraseAll elems d).2 ∧ Outlives o o' := by
  cases o with
  | none =>
    refine ⟨FlatMap.empty, none, .absent, ?_, ?_, outlives_self none⟩
    · rw [FlatMap.eraseAll_empty]
      rfl
    · rw [FlatMap.eraseAll_empty]
      exact .absent
  | some e =>
    cases hget : T.get? e.value with
    | none =>
      rw [remove_wrong hget] at hok
      cases hok
    | some d =>
      obtain ⟨value, deadline⟩ := e
      obtain rfl : value = T.wrap d := (T.get?_eq_some value d).mp hget
      refine ⟨d, _, .stored d deadline, remove_right hget, ?_⟩
      -- the key goes with the last element
      cases hempty : (FlatMap.eraseAll elems d).2.isEmpty with
      | true =>
        rw [FlatMap.eq_empty_of_isEmpty hempty]
        exact ⟨.absent, fun _ _ => rfl⟩
      | false => exact ⟨.stored _ deadline, outlives_value _ _ deadline⟩

/-- Taking an element off a list: there is one if the key is live. -/
theorem pop_holds {take : List Bytes → Option (Bytes × List Bytes)}
    (htake : ∀ list, list ≠ [] → ∃ value rest, take list = some (value, rest) ∧
      rest.length + 1 = list.length)
    (hne : ∀ e ∈ o, e.NonEmpty) (hok : ((Update.pop take).run o).1.isError = false) :
    (o = none ∧ (Update.pop take).run o = (.null, some none)) ∨
    ∃ d value o' rest, Holds listValue [] o d ∧ o ≠ none ∧ rest.length + 1 = d.length ∧
      (Update.pop take).run o = (.bulk value, some o') ∧ Holds listValue [] o' rest ∧
      Outlives o o' := by
  cases o with
  | none => exact .inl ⟨rfl, rfl⟩
  | some e =>
    obtain ⟨value, deadline⟩ := e
    cases hget : listValue.get? value with
    | none =>
      rw [run, onType_wrong hget] at hok
      cases hok
    | some d =>
      obtain rfl : value = .list d := (listValue.get?_eq_some value d).mp hget
      obtain ⟨value, rest, hvalue, hlen⟩ := htake d (hne _ rfl)
      have hrun : (Update.pop take).run (some ⟨.list d, deadline⟩) =
          (.bulk value, some (if rest.isEmpty then none else some ⟨.list rest, deadline⟩)) := by
        rw [run, onType_right hget, hvalue]
      refine .inr ⟨d, value, _, rest, .stored d deadline, Option.some_ne_none _, hlen, hrun, ?_⟩
      cases rest with
      -- the last element takes the key with it
      | nil => exact ⟨.absent, fun _ _ => rfl⟩
      | cons first rest => exact ⟨.stored _ deadline, outlives_value _ _ deadline⟩

end holds

/-! ## The keyspace -/

/-- **A write to one key** changes the number of live keys by the one that comes or goes. -/
theorem dbsize_served (now : UInt64) (s : Store) (key : Bytes) (run : Option Entry → Effect) :
    (served now s key run).2.dbsize now + (findLive now s.data key).isSome.toNat =
      s.dbsize now + (findLive now (served now s key run).2.data key).isSome.toNat := by
  rw [served]
  cases (run (findLive now s.data key)).2 with
  | none => rfl
  | some o =>
    have hlive : Store.live now ⟨s.data.put key o⟩ = (s.live now).put key (o.filter (alive now)) :=
      purge_put (alive now) s.data key o
    show Store.dbsize ⟨s.data.put key o⟩ now + _ =
      _ + (findLive now (s.data.put key o) key).isSome.toNat
    rw [Store.dbsize_eq, Store.dbsize_eq, hlive, ← find?_live, findLive_eq,
      FlatMap.find?_put_self, FlatMap.size_put]

/-- Removing keys one after another removes them from the live content, and counts those that
are there. -/
theorem runCells_removal (now : UInt64) (keys : List Bytes) (data : DataMap) :
    let removed := Program.runCells (alive now) (keys.map fun key => (key, removal)) data
    removed.1 = (FlatMap.eraseAll keys (purge (alive now) data)).1 ∧
      purge (alive now) removed.2 = (FlatMap.eraseAll keys (purge (alive now) data)).2 := by
  -- key by key: what has gone before is no longer live, so a repetition is not counted
  induction keys generalizing data with
  | nil => exact ⟨rfl, rfl⟩
  | cons key rest ih =>
    have hnone : ∀ o, (removal o).2 = none := by
      intro o
      cases o <;> rfl
    have hcount : (removal ((data.find? key).filter (alive now))).1 =
        if (purge (alive now) data).contains key then 1 else 0 := by
      rw [FlatMap.contains, find?_purge]
      cases (data.find? key).filter (alive now) <;> rfl
    obtain ⟨hremoved, hrest⟩ := ih (data.put key none)
    have hpurge : purge (alive now) (data.put key none) = (purge (alive now) data).erase key :=
      purge_put (alive now) data key none
    rw [hpurge] at hremoved hrest
    simp only [List.map_cons, Program.runCells, hnone, hcount, FlatMap.eraseAll_cons, hremoved,
      hrest, Nat.add_comm, and_self]

/-- `DEL` in one equation. -/
theorem dispatch_del {keys : List Bytes} (hkeys : keys ≠ []) :
    dispatch now ⟨ascii "DEL", keys⟩ s =
      let removed := Program.runCells (alive now) (keys.map fun key => (key, removal)) s.data
      (respCount removed.1, ⟨removed.2⟩) := by
  have hrow : specTable.lookup (ascii "DEL") = some .del := rfl
  exact dispatch_cells hrow (if_neg hkeys)

/-! ## One key -/

/-- A kind of collection, with the command that counts its elements. -/
structure Collection (α : Type) where
  kind : ValueKind α
  empty : α
  size : α → Nat
  measure : Bytes
  size_empty : size empty = 0
  size_wrap : ∀ d, (kind.wrap d).size = size d
  row : specTable.lookup measure = some (.look fun _ => noArgs (.count kind size))

def listCollection : Collection (List Bytes) where
  kind := listValue
  empty := []
  size := List.length
  measure := ascii "LLEN"
  size_empty := rfl
  size_wrap _ := rfl
  row := rfl

def hashCollection : Collection (FlatMap Bytes Bytes) where
  kind := hashValue
  empty := FlatMap.empty
  size := FlatMap.size
  measure := ascii "HLEN"
  size_empty := rfl
  size_wrap _ := rfl
  row := rfl

def setCollection : Collection (FlatMap Bytes Unit) where
  kind := setValue
  empty := FlatMap.empty
  size := FlatMap.size
  measure := ascii "SCARD"
  size_empty := rfl
  size_wrap _ := rfl
  row := rfl

/-- The size of the collection under a key is what is replied to the command that counts. -/
theorem Collection.measured {α : Type} (C : Collection α) {d : α}
    (h : Holds C.kind C.empty (findLive now s.data key) d) :
    s.sizeAt now key = C.size d ∧
      (dispatch now ⟨C.measure, [key]⟩ s).1 = respCount (s.sizeAt now key) := by
  have hempty : (C.kind.wrap C.empty).size = 0 := (C.size_wrap C.empty).trans C.size_empty
  have hsize : s.sizeAt now key = C.size d := (h.size_eq hempty).trans (C.size_wrap d)
  refine ⟨hsize, ?_⟩
  rw [dispatch_look C.row rfl, h.count_run C.size_empty, hsize]
  rfl

/-- What a write leaves under its key. -/
theorem served_holds {α : Type} {T : ValueKind α} {empty d : α} {u : Update} {reply : Reply}
    {o' : Option Entry} (hrun : u.run (findLive now s.data key) = (reply, some o'))
    (hholds : Holds T empty o' d) (houtlives : Outlives (findLive now s.data key) o') :
    (served now s key u.run).1 = reply.bytes ∧
      Holds T empty (findLive now (served now s key u.run).2.data key) d := by
  rw [served, hrun]
  refine ⟨rfl, ?_⟩
  show Holds _ _ (findLive now (s.data.put key o') key) d
  rw [findLive_eq, FlatMap.find?_put_self, houtlives now (filter_findLive now s.data key)]
  exact hholds

/-! ## The commands -/

/-- A command on a collection whose reply counts. -/
inductive Counting where
  | hset
  | hdel
  | sadd
  | srem
  | lpush
  | rpush
  | lpop
  | rpop

namespace Counting

def name : Counting → Bytes
  | hset => ascii "HSET"
  | hdel => ascii "HDEL"
  | sadd => ascii "SADD"
  | srem => ascii "SREM"
  | lpush => ascii "LPUSH"
  | rpush => ascii "RPUSH"
  | lpop => ascii "LPOP"
  | rpop => ascii "RPOP"

/-- The command that counts the elements of the collection. -/
def measure : Counting → Bytes
  | hset => ascii "HLEN"
  | hdel => ascii "HLEN"
  | sadd => ascii "SCARD"
  | srem => ascii "SCARD"
  | lpush => ascii "LLEN"
  | rpush => ascii "LLEN"
  | lpop => ascii "LLEN"
  | rpop => ascii "LLEN"

/-- What the reply says of the numbers of elements before and after, and of whether the key
was live; `added` is the number of arguments after the key. -/
def Accounts (added : Nat) (live : Bool) (before after : Nat) (reply : Bytes) :
    Counting → Prop
  | hset => ∃ n : Nat, reply = respCount n ∧ after = before + n
  | hdel => ∃ n : Nat, reply = respCount n ∧ after + n = before
  | sadd => ∃ n : Nat, reply = respCount n ∧ after = before + n
  | srem => ∃ n : Nat, reply = respCount n ∧ after + n = before
  | lpush => reply = respCount after ∧ after = before + added
  | rpush => reply = respCount after ∧ after = before + added
  | lpop => ((∃ value, reply = respBulk value) ↔ after + 1 = before) ∧
      (reply = respNullBulk ↔ live = false)
  | rpop => ((∃ value, reply = respBulk value) ↔ after + 1 = before) ∧
      (reply = respNullBulk ↔ live = false)

end Counting

/-- The number of live keys follows one of them. -/
structure DbsizeFollows (now : UInt64) (key : Bytes) (s s' : Store) : Prop where
  appears : findLive now s.data key = none → findLive now s'.data key ≠ none →
    s'.dbsize now = s.dbsize now + 1
  disappears : findLive now s.data key ≠ none → findLive now s'.data key = none →
    s'.dbsize now + 1 = s.dbsize now
  stays : (findLive now s.data key = none ↔ findLive now s'.data key = none) →
    s'.dbsize now = s.dbsize now

/-- **A write to one key** changes `DBSIZE` by the key that comes or goes. -/
theorem dbsizeFollows_served (now : UInt64) (s : Store) (key : Bytes)
    (run : Option Entry → Effect) : DbsizeFollows now key s (served now s key run).2 := by
  have hsize := dbsize_served now s key run
  -- the key appears, it disappears, or neither
  refine ⟨fun hnone hsome => ?_, fun hsome hnone => ?_, fun hsame => ?_⟩
  · rw [hnone, Option.isSome_iff_ne_none.mpr hsome] at hsize
    exact hsize
  · rw [hnone, Option.isSome_iff_ne_none.mpr hsome] at hsize
    exact hsize
  · have hlive : (findLive now s.data key).isSome =
        (findLive now (served now s key run).2.data key).isSome := by
      rw [Bool.eq_iff_iff, Option.isSome_iff_ne_none, Option.isSome_iff_ne_none]
      exact not_congr hsame
    rw [hlive] at hsize
    exact Nat.add_right_cancel hsize

/-- An accepted command with at least one argument after the key. -/
theorem accepted_someArgs {name : Bytes} {args : List Bytes}
    {f : (args : List Bytes) → args ≠ [] → Update}
    (hrow : specTable.lookup name = some (.update fun _ => someArgs f))
    (hok : Accepted now ⟨name, args⟩ s) : ∃ key rest hne, args = key :: rest ∧
      dispatch now ⟨name, args⟩ s = served now s key (f rest hne).run ∧
      ((f rest hne).run (findLive now s.data key)).1.isError = false := by
  obtain ⟨key, rest, u, hargs, hparse, hserved, hreply⟩ :=
    exists_update_of_accepted hrow hok fun herror => by
      rw [someArgs] at herror
      split_ifs at herror
      cases herror
      rfl
  rw [someArgs] at hparse
  split_ifs at hparse with hne
  obtain rfl := Except.ok.inj hparse
  exact ⟨key, rest, hne, hargs, hserved, hreply⟩

/-- An accepted command with no argument after the key. -/
theorem accepted_noArgs {name : Bytes} {args : List Bytes} {u : Update}
    (hrow : specTable.lookup name = some (.update fun _ => noArgs u))
    (hok : Accepted now ⟨name, args⟩ s) : ∃ key, args = [key] ∧
      dispatch now ⟨name, args⟩ s = served now s key u.run ∧
      (u.run (findLive now s.data key)).1.isError = false := by
  obtain ⟨key, rest, u', hargs, hparse, hserved, hreply⟩ :=
    exists_update_of_accepted hrow hok fun {rest _} herror => by
      cases rest with
      | nil => cases herror
      | cons arg rest =>
        cases herror
        rfl
  cases rest with
  | cons arg rest => cases hparse
  | nil =>
    cases hparse
    exact ⟨key, hargs, hserved, hreply⟩

/-- What is said of one command on a collection. -/
def Counting.Exact (now : UInt64) (s : Store) (args : List Bytes) (c : Counting) : Prop :=
  ∃ key rest, args = key :: rest ∧
    let after := dispatch now ⟨c.name, args⟩ s
    (dispatch now ⟨c.measure, [key]⟩ s).1 = respCount (s.sizeAt now key) ∧
    (dispatch now ⟨c.measure, [key]⟩ after.2).1 = respCount (after.2.sizeAt now key) ∧
    c.Accounts rest.length (findLive now s.data key).isSome (s.sizeAt now key)
      (after.2.sizeAt now key) after.1 ∧
    DbsizeFollows now key s after.2

/-- A command that adds to a collection. -/
theorem exact_add {α : Type} (C : Collection α) {c : Counting} {rest : List Bytes}
    {grow : α → Nat × α} {hgrow : ∀ d, (C.kind.wrap (grow d).2).NonEmpty}
    (hmeasure : c.measure = C.measure)
    (hserved : dispatch now ⟨c.name, key :: rest⟩ s =
      served now s key (Update.add C.kind C.empty grow hgrow).run)
    (hok : ((Update.add C.kind C.empty grow hgrow).run (findLive now s.data key)).1.isError =
      false)
    (haccounts : ∀ d, c.Accounts rest.length (findLive now s.data key).isSome (C.size d)
      (C.size (grow d).2) (respCount (grow d).1)) : c.Exact now s (key :: rest) := by
  obtain ⟨d, o', hbefore, hrun, hholds, houtlives⟩ := add_holds hok
  obtain ⟨hreply, hafter⟩ := served_holds hrun hholds houtlives
  obtain ⟨hsize, hshown⟩ := C.measured hbefore
  obtain ⟨hsize', hshown'⟩ := C.measured hafter
  refine ⟨key, rest, rfl, ?_⟩
  simp only [hserved, hmeasure]
  refine ⟨hshown, hshown', ?_, dbsizeFollows_served now s key _⟩
  rw [hsize, hsize', hreply]
  exact haccounts d

/-- A command that removes from a collection. -/
theorem exact_remove {ν : Type} (C : Collection (FlatMap Bytes ν)) {c : Counting}
    {elems : List Bytes} {hT : ∀ d, d.isEmpty = false → (C.kind.wrap d).NonEmpty}
    (hmeasure : c.measure = C.measure) (hsizes : C.size = FlatMap.size)
    (hempty : C.empty = FlatMap.empty)
    (hserved : dispatch now ⟨c.name, key :: elems⟩ s =
      served now s key (Update.remove C.kind elems hT).run)
    (hok : ((Update.remove C.kind elems hT).run (findLive now s.data key)).1.isError = false)
    (haccounts : ∀ n before after reply, reply = respCount (n : Nat) → after + n = before →
      c.Accounts elems.length (findLive now s.data key).isSome before after reply) :
    c.Exact now s (key :: elems) := by
  obtain ⟨d, o', hbefore, hrun, hholds, houtlives⟩ := remove_holds hok
  obtain ⟨hreply, hafter⟩ := served_holds hrun hholds houtlives
  rw [← hempty] at hbefore hafter
  obtain ⟨hsize, hshown⟩ := C.measured hbefore
  obtain ⟨hsize', hshown'⟩ := C.measured hafter
  refine ⟨key, elems, rfl, ?_⟩
  simp only [hserved, hmeasure]
  refine ⟨hshown, hshown', ?_, dbsizeFollows_served now s key _⟩
  refine haccounts _ _ _ _ hreply ?_
  rw [hsize, hsize', hsizes]
  exact FlatMap.size_eraseAll elems d

/-- A command that takes an element off a list. -/
theorem exact_pop {c : Counting} {take : List Bytes → Option (Bytes × List Bytes)}
    (hmeasure : c.measure = ascii "LLEN")
    (htake : ∀ list, list ≠ [] → ∃ value rest, take list = some (value, rest) ∧
      rest.length + 1 = list.length)
    (hserved : dispatch now ⟨c.name, [key]⟩ s = served now s key (Update.pop take).run)
    (hok : ((Update.pop take).run (findLive now s.data key)).1.isError = false)
    (hnonEmpty : s.NonEmpty)
    (haccounts : ∀ live before after reply,
      ((∃ value, reply = respBulk value) ↔ after + 1 = before) →
      (reply = respNullBulk ↔ live = false) → c.Accounts 0 live before after reply) :
    c.Exact now s [key] := by
  have hne : ∀ e ∈ findLive now s.data key, e.NonEmpty := fun e he =>
    hnonEmpty key e (find?_of_findLive he)
  refine ⟨key, [], rfl, ?_⟩
  simp only [hserved, hmeasure]
  -- a missing key answers null, and a stored list gives up one element
  rcases pop_holds htake hne hok with
    ⟨hnone, hrun⟩ | ⟨d, value, o', rest, hbefore, hlive, hlen, hrun, hholds, houtlives⟩
  · have hholds : Holds listValue [] (findLive now s.data key) [] := by
      rw [hnone]
      exact .absent
    have houtlives : Outlives (findLive now s.data key) none := fun _ _ => rfl
    obtain ⟨hreply, hafter⟩ := served_holds hrun .absent houtlives
    obtain ⟨hsize, hshown⟩ := listCollection.measured hholds
    obtain ⟨hsize', hshown'⟩ := listCollection.measured hafter
    refine ⟨hshown, hshown', ?_, dbsizeFollows_served now s key _⟩
    rw [hsize, hsize', hreply, hnone]
    refine haccounts _ _ _ _ (iff_of_false ?_ (by decide)) (iff_of_true rfl rfl)
    rintro ⟨value, hvalue⟩
    exact respBulk_ne_null value hvalue.symm
  · obtain ⟨hreply, hafter⟩ := served_holds hrun hholds houtlives
    obtain ⟨hsize, hshown⟩ := listCollection.measured hbefore
    obtain ⟨hsize', hshown'⟩ := listCollection.measured hafter
    refine ⟨hshown, hshown', ?_, dbsizeFollows_served now s key _⟩
    rw [hsize, hsize', hreply, Option.isSome_iff_ne_none.mpr hlive]
    exact haccounts _ _ _ _ (iff_of_true ⟨value, rfl⟩ hlen)
      (iff_of_false (respBulk_ne_null value) (Ne.symm Bool.false_ne_true))

/-- From a list that is not empty, `LPOP` takes an element. -/
theorem popFront_some {list : List Bytes} (h : list ≠ []) :
    ∃ value rest, Store.popFront list = some (value, rest) ∧ rest.length + 1 = list.length := by
  cases list with
  | nil => exact absurd rfl h
  | cons value rest => exact ⟨value, rest, rfl, rfl⟩

/-- From a list that is not empty, `RPOP` takes an element. -/
theorem popBack_some {list : List Bytes} (h : list ≠ []) :
    ∃ value rest, Store.popBack list = some (value, rest) ∧ rest.length + 1 = list.length := by
  have hpos := List.length_pos_iff.mpr h
  refine ⟨list.getLast h, list.dropLast, ?_, ?_⟩
  · rw [Store.popBack, List.getLast?_eq_some_getLast h]
  · rw [List.length_dropLast]
    omega

/-- Every accepted command on a collection is accounted for. -/
theorem counting_exact (hnonEmpty : s.NonEmpty) {c : Counting} {args : List Bytes}
    (hok : Accepted now ⟨c.name, args⟩ s) : c.Exact now s args := by
  cases c with
  | hset =>
    have hrow : specTable.lookup (ascii "HSET") = some .hset := rfl
    obtain ⟨key, rest, u, rfl, hparse, hserved, hreply⟩ :=
      exists_update_of_accepted hrow hok fun h => by
        split_ifs at h
        cases h
        rfl
    split_ifs at hparse with hlen
    cases hparse
    exact exact_add hashCollection rfl hserved hreply fun d =>
      ⟨_, rfl, FlatMap.size_insertAll (pairs rest) d⟩
  | hdel =>
    have hrow : specTable.lookup (ascii "HDEL") = some .hdel := rfl
    obtain ⟨key, rest, hne, rfl, hserved, hreply⟩ := accepted_someArgs hrow hok
    exact exact_remove hashCollection rfl rfl rfl hserved hreply
      fun n _ _ _ hcount hsize => ⟨n, hcount, hsize⟩
  | sadd =>
    have hrow : specTable.lookup (ascii "SADD") = some .sadd := rfl
    obtain ⟨key, rest, hne, rfl, hserved, hreply⟩ := accepted_someArgs hrow hok
    exact exact_add setCollection rfl hserved hreply fun d =>
      ⟨_, rfl, FlatMap.size_insertAll _ d⟩
  | srem =>
    have hrow : specTable.lookup (ascii "SREM") = some .srem := rfl
    obtain ⟨key, rest, hne, rfl, hserved, hreply⟩ := accepted_someArgs hrow hok
    exact exact_remove setCollection rfl rfl rfl hserved hreply
      fun n _ _ _ hcount hsize => ⟨n, hcount, hsize⟩
  | lpush =>
    have hrow : specTable.lookup (ascii "LPUSH") = some .lpush := rfl
    obtain ⟨key, rest, hne, rfl, hserved, hreply⟩ := accepted_someArgs hrow hok
    refine exact_add listCollection rfl hserved hreply fun d => ⟨rfl, ?_⟩
    show (Store.pushFront rest d).2.length = d.length + rest.length
    rw [pushFront_eq, List.length_append, List.length_reverse, Nat.add_comm]
  | rpush =>
    have hrow : specTable.lookup (ascii "RPUSH") = some .rpush := rfl
    obtain ⟨key, rest, hne, rfl, hserved, hreply⟩ := accepted_someArgs hrow hok
    refine exact_add listCollection rfl hserved hreply fun d => ⟨rfl, ?_⟩
    show (Store.pushBack rest d).2.length = d.length + rest.length
    rw [pushBack_eq, List.length_append]
  | lpop =>
    have hrow : specTable.lookup (ascii "LPOP") = some .lpop := rfl
    obtain ⟨key, rfl, hserved, hreply⟩ := accepted_noArgs hrow hok
    exact exact_pop rfl (fun _ => popFront_some) hserved hreply hnonEmpty
      fun _ _ _ _ hvalue hnull => ⟨hvalue, hnull⟩
  | rpop =>
    have hrow : specTable.lookup (ascii "RPOP") = some .rpop := rfl
    obtain ⟨key, rfl, hserved, hreply⟩ := accepted_noArgs hrow hok
    exact exact_pop rfl (fun _ => popBack_some) hserved hreply hnonEmpty
      fun _ _ _ _ hvalue hnull => ⟨hvalue, hnull⟩

/-- **Counts account for the data.** In a store without empty collections: an accepted `DEL`
replies the number of keys that are gone from the live content, and none of its keys is left
there; an accepted command on a collection replies what the sizes of the collection before
and after say, and the number of live keys follows its key. `DBSIZE` is that number. -/
theorem counts_account (now : UInt64) {s : Store} (hnonEmpty : s.NonEmpty) :
    (∀ s : Store, (dispatch now ⟨ascii "DBSIZE", []⟩ s).1 = respCount (s.dbsize now)) ∧
    (∀ keys, Accepted now ⟨ascii "DEL", keys⟩ s →
      let after := dispatch now ⟨ascii "DEL", keys⟩ s
      (∃ n : Nat, after.1 = respCount n ∧ after.2.dbsize now + n = s.dbsize now) ∧
      ∀ key ∈ keys, findLive now after.2.data key = none) ∧
    ∀ (c : Counting) (args : List Bytes), Accepted now ⟨c.name, args⟩ s →
      c.Exact now s args := by
  refine ⟨fun s => ?_, fun keys hok => ?_, fun c args hok => counting_exact hnonEmpty hok⟩
  · have hrow : specTable.lookup (ascii "DBSIZE") = some .dbsize := rfl
    rw [dispatch_eq hrow, ← handleDbsize_eq]
    rfl
  · have hkeys : keys ≠ [] := by
      rintro rfl
      exact hok rfl
    obtain ⟨hcount, hlive⟩ := runCells_removal now keys s.data
    rw [dispatch_del hkeys]
    refine ⟨⟨_, rfl, ?_⟩, fun key hkey => ?_⟩
    · rw [Store.dbsize_eq, Store.dbsize_eq, hcount]
      exact (congrArg (FlatMap.size · + _) hlive).trans (FlatMap.size_eraseAll keys _)
    · rw [findLive_eq, ← find?_purge, hlive, FlatMap.find?_eraseAll, Lookup.unsetAll_eq,
        if_pos hkey]

/-- A hash loses a field that is listed twice, and the key with it. -/
theorem counts_account_hdel :
    let s := execAll [(1, ⟨ascii "HSET", [ascii "h", ascii "a", ascii "1"]⟩)] Store.empty
    Counting.hdel.Exact 2 s [ascii "h", ascii "a", ascii "a"] := by
  intro s
  have hreachable : s.NonEmpty := dispatch_nonEmpty _ (by rintro key e ⟨⟩)
  have hok : Accepted 2 ⟨Counting.hdel.name, [ascii "h", ascii "a", ascii "a"]⟩ s := by
    rw [Accepted]
    decide
  exact (counts_account 2 hreachable).2.2 .hdel _ hok

end Redix
