import Redix.Base.BulkWrites
import Redix.Command.Deadlines

/-!
# Variadic commands decompose

`DEL`, `MSET`, `LPUSH`, `RPUSH`, `HSET`, `HDEL`, `SADD` and `SREM` take any number of keys,
pairs, values, fields or members. One command with all of them leaves the store that two
commands with a part each leave, although the first of the two may create the key, or empty
and remove it.

- `Update.Splits`: a write that is two writes in a row, with what the counts add up to;
- `add_splits`, `remove_splits`: the writes to collections, from the same fact about the
  collections;
- `served_splits`: what such a write does to the store;
- `variadic_decompose`: the commands.
-/

namespace Redix

open Keyspace Update

variable {now : UInt64} {s : Store} {key : Bytes}

/-! ## Two writes in a row -/

/-- One write is two in a row on an entry: each time it is refused, or they leave the same
and its count is the total of theirs. -/
inductive Update.SplitsOn (total : Nat → Nat → Nat) (u u₁ u₂ : Update) (o : Option Entry) :
    Prop where
  | refused (first : u₁.run o = (.wrongType, some o)) (second : u₂.run o = (.wrongType, some o))
      (whole : u.run o = (.wrongType, some o))
  | counted {n₁ n₂ : Nat} {o₁ o₂ : Option Entry} (outlives : Outlives o o₁)
      (first : u₁.run o = (.count n₁, some o₁)) (second : u₂.run o₁ = (.count n₂, some o₂))
      (whole : u.run o = (.count (total n₁ n₂), some o₂))

/-- One write is two in a row. -/
def Update.Splits (total : Nat → Nat → Nat) (u u₁ u₂ : Update) : Prop :=
  ∀ o, SplitsOn total u u₁ u₂ o

section collections

variable {α ν : Type}

/-- Adding in two goes: to a live collection, or to a fresh one that the first go creates. -/
theorem add_splits {T : ValueKind α} {fresh : α} {grow grow₁ grow₂ : α → Nat × α}
    {h : ∀ d, (T.wrap (grow d).2).NonEmpty} {h₁ : ∀ d, (T.wrap (grow₁ d).2).NonEmpty}
    {h₂ : ∀ d, (T.wrap (grow₂ d).2).NonEmpty} (total : Nat → Nat → Nat)
    (hgrow : ∀ d, grow d =
      (total (grow₁ d).1 (grow₂ (grow₁ d).2).1, (grow₂ (grow₁ d).2).2)) :
    Update.Splits total (.add T fresh grow h) (.add T fresh grow₁ h₁)
      (.add T fresh grow₂ h₂) := by
  intro o
  cases o with
  -- the first call makes the key, and the second finds what it made
  | none =>
    refine .counted (outlives_noDeadline none _) rfl (add_right (T.get?_wrap _)) ?_
    rw [run, onType, hgrow fresh]
  | some e =>
    cases hget : T.get? e.value with
    | none => exact .refused (add_wrong hget) (add_wrong hget) (add_wrong hget)
    | some d =>
      refine .counted (outlives_value _ _ e.expiresAtMs) (add_right hget)
        (add_right (T.get?_wrap _)) ?_
      rw [add_right hget, hgrow d]

/-- Removing in two goes: the first may leave nothing, and then the key is gone. -/
theorem remove_splits {T : ValueKind (FlatMap Bytes ν)} (elems elems' : List Bytes)
    (hT : ∀ d, d.isEmpty = false → (T.wrap d).NonEmpty) :
    Update.Splits (· + ·) (.remove T (elems ++ elems') hT) (.remove T elems hT)
      (.remove T elems' hT) := by
  intro o
  cases o with
  | none => exact .counted (outlives_self none) rfl rfl rfl
  | some e =>
    cases hget : T.get? e.value with
    | none => exact .refused (remove_wrong hget) (remove_wrong hget) (remove_wrong hget)
    | some d =>
      have hfirst : (Update.remove T elems hT).run (some e) = _ := remove_right hget
      have hwhole : (Update.remove T (elems ++ elems') hT).run (some e) = _ := remove_right hget
      rw [FlatMap.eraseAll_append] at hwhole
      cases hempty : (FlatMap.eraseAll elems d).2.isEmpty with
      | true =>
        -- nothing is left for the second go
        rw [FlatMap.eq_empty_of_isEmpty hempty] at hfirst hwhole
        rw [FlatMap.eraseAll_empty] at hwhole
        exact .counted (fun _ _ => rfl) hfirst rfl hwhole
      | false =>
        simp only [hempty, Bool.false_eq_true, if_false] at hfirst
        exact .counted (outlives_value _ _ e.expiresAtMs) hfirst
          (remove_right (T.get?_wrap _)) hwhole

end collections

/-- A write that splits, on a store. -/
theorem served_splits {total : Nat → Nat → Nat} {u u₁ u₂ : Update} (h : u.Splits total u₁ u₂) :
    (served now s key u.run).2 = (served now (served now s key u₁.run).2 key u₂.run).2 ∧
    ((served now s key u.run).1.head? ≠ some 45 → ∃ n₁ n₂ : Nat,
      (served now s key u₁.run).1 = respCount n₁ ∧
      (served now (served now s key u₁.run).2 key u₂.run).1 = respCount n₂ ∧
      (served now s key u.run).1 = respCount (total n₁ n₂)) := by
  -- the second call reads what the first has written, which is still live
  have hafter {o : Option Entry} (ho : Outlives (findLive now s.data key) o) :
      findLive now (s.data.put key o) key = o := by
    rw [findLive_eq, FlatMap.find?_put_self, ho now (filter_findLive now s.data key)]
  rcases h (findLive now s.data key) with
    ⟨hfirst, hsecond, hwhole⟩ | ⟨houtlives, hfirst, hsecond, hwhole⟩
  · simp only [served, hfirst, hwhole, Option.elim_some, hafter (outlives_self _), hsecond,
      FlatMap.put_put]
    exact ⟨trivial, fun hok => absurd rfl hok⟩
  · simp only [served, hfirst, hwhole, Option.elim_some, hafter houtlives, hsecond,
      FlatMap.put_put]
    exact ⟨trivial, fun _ => ⟨_, _, rfl, rfl, rfl⟩⟩

/-! ## Commands -/

/-- A variadic command. All but `DEL` and `MSET` work on one key. -/
inductive Variadic where
  | del
  | mset
  | lpush (key : Bytes)
  | rpush (key : Bytes)
  | hset (key : Bytes)
  | hdel (key : Bytes)
  | sadd (key : Bytes)
  | srem (key : Bytes)

namespace Variadic

/-- The command with given arguments. -/
def command : Variadic → List Bytes → Command
  | del, args => ⟨ascii "DEL", args⟩
  | mset, args => ⟨ascii "MSET", args⟩
  | lpush key, args => ⟨ascii "LPUSH", key :: args⟩
  | rpush key, args => ⟨ascii "RPUSH", key :: args⟩
  | hset key, args => ⟨ascii "HSET", key :: args⟩
  | hdel key, args => ⟨ascii "HDEL", key :: args⟩
  | sadd key, args => ⟨ascii "SADD", key :: args⟩
  | srem key, args => ⟨ascii "SREM", key :: args⟩

/-- Whether the arguments come in pairs. -/
def paired : Variadic → Bool
  | mset => true
  | hset _ => true
  | _ => false

/-- A part of the arguments: at least one of them, and whole pairs. -/
structure Part (v : Variadic) (args : List Bytes) : Prop where
  ne_nil : args ≠ []
  even : v.paired = true → args.length % 2 = 0

/-- How the reply to all arguments is made up of the replies to two parts: their sum, or the
reply to the second. -/
def Totals (whole first second : Bytes) : Variadic → Prop
  | mset => whole = second
  | lpush _ => whole = second
  | rpush _ => whole = second
  | _ => ∃ n₁ n₂ : Nat, first = respCount n₁ ∧ second = respCount n₂ ∧
    whole = respCount (n₁ + n₂)

end Variadic

theorem pairs_append (args' : List Bytes) :
    ∀ {args : List Bytes}, args.length % 2 = 0 → pairs (args ++ args') = pairs args ++ pairs args'
  | [], _ => rfl
  | [_], h => absurd h Nat.one_ne_zero
  | first :: second :: rest, h => by
    have hrest : rest.length % 2 = 0 := by
      simpa only [List.length_cons, Nat.add_assoc, Nat.reduceAdd, Nat.add_mod_right] using h
    show (first, second) :: pairs (rest ++ args') = _
    rw [pairs_append args' hrest]
    rfl

/-- The arguments of whole pairs. -/
theorem two_le_of_even {args : List Bytes} (hne : args ≠ []) (heven : args.length % 2 = 0) :
    2 ≤ args.length := by
  have hpos := List.length_pos_iff.mpr hne
  omega

/-- A command that parses to a write that splits. -/
theorem dispatch_splits {name : Bytes} {args args' : List Bytes}
    {parse : UInt64 → List Bytes → Except Reply Update} {total : Nat → Nat → Nat}
    {u u₁ u₂ : Update} (hrow : specTable.lookup name = some (.update parse))
    (h₁ : parse now args = .ok u₁) (h₂ : parse now args' = .ok u₂)
    (h : parse now (args ++ args') = .ok u) (hsplits : u.Splits total u₁ u₂) :
    let first := dispatch now ⟨name, key :: args⟩ s
    let second := dispatch now ⟨name, key :: args'⟩ first.2
    let whole := dispatch now ⟨name, key :: (args ++ args')⟩ s
    whole.2 = second.2 ∧ (whole.1.head? ≠ some 45 → ∃ n₁ n₂ : Nat, first.1 = respCount n₁ ∧
      second.1 = respCount n₂ ∧ whole.1 = respCount (total n₁ n₂)) := by
  intro first second whole
  have hfirst : first = served now s key u₁.run := dispatch_update hrow h₁
  have hsecond : second = served now first.2 key u₂.run := dispatch_update hrow h₂
  have hwhole : whole = served now s key u.run := dispatch_update hrow h
  rw [hwhole, hsecond, hfirst]
  exact served_splits hsplits

/-- Pushes answer with the length after the last of them. -/
theorem dispatch_splits_push {name : Bytes} {args args' : List Bytes}
    {parse : UInt64 → List Bytes → Except Reply Update}
    {u u₁ u₂ : Update} (hrow : specTable.lookup name = some (.update parse))
    (h₁ : parse now args = .ok u₁) (h₂ : parse now args' = .ok u₂)
    (h : parse now (args ++ args') = .ok u) (hsplits : u.Splits (fun _ n => n) u₁ u₂) :
    let first := dispatch now ⟨name, key :: args⟩ s
    let second := dispatch now ⟨name, key :: args'⟩ first.2
    let whole := dispatch now ⟨name, key :: (args ++ args')⟩ s
    whole.2 = second.2 ∧ (whole.1.head? ≠ some 45 → whole.1 = second.1) := by
  refine (dispatch_splits hrow h₁ h₂ h hsplits).imp_right fun hreply hok => ?_
  obtain ⟨n₁, n₂, -, hsecond, hwhole⟩ := hreply hok
  exact hwhole.trans hsecond.symm

/-- A command that runs a sequence of updates, in two goes. -/
theorem dispatch_splits_cells {name : Bytes} {args args' : List Bytes} {spec : Spec}
    {us us' : List (Bytes × (Option Entry → Nat × Option Entry))} {fin : Nat → Reply}
    (hrow : specTable.lookup name = some spec)
    (h₁ : spec.program now args = .cells us fin) (h₂ : spec.program now args' = .cells us' fin)
    (h : spec.program now (args ++ args') = .cells (us ++ us') fin) :
    let first := dispatch now ⟨name, args⟩ s
    let second := dispatch now ⟨name, args'⟩ first.2
    let whole := dispatch now ⟨name, args ++ args'⟩ s
    whole.2 = second.2 ∧ ∃ n₁ n₂ : Nat, first.1 = (fin n₁).bytes ∧ second.1 = (fin n₂).bytes ∧
      whole.1 = (fin (n₁ + n₂)).bytes := by
  intro first second whole
  have hfirst : first = _ := dispatch_cells hrow h₁
  have hsecond : second = _ := dispatch_cells hrow h₂
  have hwhole : whole = _ := dispatch_cells hrow h
  rw [Program.runCells_append] at hwhole
  rw [hwhole, hsecond, hfirst]
  exact ⟨rfl, _, _, rfl, rfl, rfl⟩

/-- **Variadic commands decompose.** For every clock reading and store, and two parts of the
arguments: one command with both leaves exactly the store that two commands with one each
leave; and unless it is refused, its reply is their sum, or for the pushes the second of
them. -/
theorem variadic_decompose (now : UInt64) (s : Store) (v : Variadic) {args args' : List Bytes}
    (h : v.Part args) (h' : v.Part args') :
    let first := dispatch now (v.command args) s
    let second := dispatch now (v.command args') first.2
    let whole := dispatch now (v.command (args ++ args')) s
    whole.2 = second.2 ∧
      (Accepted now (v.command (args ++ args')) s → v.Totals whole.1 first.1 second.1) := by
  obtain ⟨hne, heven⟩ := h
  obtain ⟨hne', heven'⟩ := h'
  have happend : args ++ args' ≠ [] := List.append_ne_nil_of_left_ne_nil hne args'
  cases v with
  | del =>
    have hrow : specTable.lookup (ascii "DEL") = some .del := rfl
    obtain ⟨hstore, hreply⟩ := dispatch_splits_cells (s := s) hrow
      (if_neg hne) (if_neg hne') ((if_neg happend).trans (by rw [List.map_append]))
    exact ⟨hstore, fun _ => hreply⟩
  | mset =>
    have hrow : specTable.lookup (ascii "MSET") = some .mset := rfl
    have harity {args : List Bytes} (hne : args ≠ []) (heven : args.length % 2 = 0) :
        ¬ (args.length < 2 ∨ args.length % 2 ≠ 0) := by
      have hlen := two_le_of_even hne heven
      omega
    -- pairs must be cut between pairs, or a field would become a value
    have heven_append : (args ++ args').length % 2 = 0 := by
      rw [List.length_append, Nat.add_mod, heven rfl, heven' rfl]
    obtain ⟨hstore, n₁, n₂, -, hsecond, hwhole⟩ := dispatch_splits_cells (s := s) hrow
      (if_neg (harity hne (heven rfl))) (if_neg (harity hne' (heven' rfl)))
      ((if_neg (harity happend heven_append)).trans
        (by rw [pairs_append _ (heven rfl), List.map_append]))
    exact ⟨hstore, fun _ => hwhole.trans hsecond.symm⟩
  | lpush key =>
    have hrow : specTable.lookup (ascii "LPUSH") = some .lpush := rfl
    have hsplits : Update.Splits (fun _ n => n) (.lpush _ happend) (.lpush args hne)
        (.lpush args' hne') := by
      refine add_splits _ fun d => ?_
      rw [Store.pushFront, List.foldl_append]
      rfl
    exact dispatch_splits_push hrow (dif_neg hne) (dif_neg hne') (dif_neg happend) hsplits
  | rpush key =>
    have hrow : specTable.lookup (ascii "RPUSH") = some .rpush := rfl
    have hsplits : Update.Splits (fun _ n => n) (.rpush _ happend) (.rpush args hne)
        (.rpush args' hne') := by
      refine add_splits _ fun d => ?_
      rw [Store.pushBack, List.foldl_append]
      rfl
    exact dispatch_splits_push hrow (dif_neg hne) (dif_neg hne') (dif_neg happend) hsplits
  | hset key =>
    have hrow : specTable.lookup (ascii "HSET") = some .hset := rfl
    have hlen := two_le_of_even hne (heven rfl)
    have hlen' := two_le_of_even hne' (heven' rfl)
    have hlen_append : 2 ≤ (args ++ args').length ∧ (args ++ args').length % 2 = 0 := by
      rw [List.length_append, Nat.add_mod, heven rfl, heven' rfl]
      omega
    have hsplits : Update.Splits (· + ·) (.hset _ hlen_append.1) (.hset args hlen)
        (.hset args' hlen') := by
      refine add_splits _ fun d => ?_
      rw [pairs_append _ (heven rfl), FlatMap.insertAll_append]
    exact dispatch_splits hrow (dif_pos ⟨hlen, heven rfl⟩) (dif_pos ⟨hlen', heven' rfl⟩)
      (dif_pos hlen_append) hsplits
  | hdel key =>
    have hrow : specTable.lookup (ascii "HDEL") = some .hdel := rfl
    exact dispatch_splits hrow (dif_neg hne) (dif_neg hne') (dif_neg happend)
      (remove_splits args args' _)
  | sadd key =>
    have hrow : specTable.lookup (ascii "SADD") = some .sadd := rfl
    have hsplits : Update.Splits (· + ·) (.sadd _ happend) (.sadd args hne)
        (.sadd args' hne') := by
      refine add_splits _ fun d => ?_
      rw [List.map_append, FlatMap.insertAll_append]
    exact dispatch_splits hrow (dif_neg hne) (dif_neg hne') (dif_neg happend) hsplits
  | srem key =>
    have hrow : specTable.lookup (ascii "SREM") = some .srem := rfl
    exact dispatch_splits hrow (dif_neg hne) (dif_neg hne') (dif_neg happend)
      (remove_splits args args' _)

/-- The first part empties the hash, so the second finds no key. -/
theorem variadic_decompose_hdel :
    let s := execAll [(1, ⟨ascii "HSET", [ascii "h", ascii "a", ascii "1"]⟩)] Store.empty
    (dispatch 2 ⟨ascii "HDEL", [ascii "h", ascii "a", ascii "a"]⟩ s).2 =
      (dispatch 2 ⟨ascii "HDEL", [ascii "h", ascii "a"]⟩
        (dispatch 2 ⟨ascii "HDEL", [ascii "h", ascii "a"]⟩ s).2).2 := by
  intro s
  have hpart : (Variadic.hdel (ascii "h")).Part [ascii "a"] :=
    ⟨List.cons_ne_nil _ _, fun heven => absurd heven Bool.false_ne_true⟩
  exact (variadic_decompose 2 s (.hdel (ascii "h")) hpart hpart).1

end Redix
