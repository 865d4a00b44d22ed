import Redix.Base.Members
import Redix.Command.Accounts
import Redix.Command.Isolation
import Redix.Command.Rename
import Redix.Command.Sets

/-!
# Sets are finite sets

The commands on sets, over many keys, against a reference in which every key has a finite set:
the empty one if there is none. The store has no empty sets; it keeps sorted sequences, goes
through arguments one after another, and computes intersections and unions with accumulators
and early exits.

- `SetOp`: the operations, with their commands;
- `SetOp.reference`: what each of them is on finite sets;
- `HoldsSets`: what the store holds under the keys of a client;
- `dispatch_setOp`: one command keeps the simulation and gets the reference's reply;
- `sets_are_finite_sets`: so do runs, whatever others do with other keys.
-/

namespace Redix

open FlatSet Keyspace Observation

/-! ## The operations -/

/-- An operation on sets. -/
inductive SetOp where
  | sadd (key : Bytes) (members : List Bytes) (h : members ≠ [])
  | srem (key : Bytes) (members : List Bytes) (h : members ≠ [])
  | scard (key : Bytes)
  | sismember (key member : Bytes)
  | smembers (key : Bytes)
  | sinter (key : Bytes) (rest : List Bytes)
  | sunion (keys : List Bytes) (h : keys ≠ [])
  | «exists» (keys : List Bytes) (h : keys ≠ [])
  | del (keys : List Bytes) (h : keys ≠ [])
  | rename (src dst : Bytes)

/-- A finite set for every key. -/
abbrev SetDb := Bytes → Finset Bytes

namespace SetOp

def command : SetOp → Command
  | sadd key members _ => ⟨ascii "SADD", key :: members⟩
  | srem key members _ => ⟨ascii "SREM", key :: members⟩
  | scard key => ⟨ascii "SCARD", [key]⟩
  | sismember key member => ⟨ascii "SISMEMBER", [key, member]⟩
  | smembers key => ⟨ascii "SMEMBERS", [key]⟩
  | sinter key rest => ⟨ascii "SINTER", key :: rest⟩
  | sunion keys _ => ⟨ascii "SUNION", keys⟩
  | «exists» keys _ => ⟨ascii "EXISTS", keys⟩
  | del keys _ => ⟨ascii "DEL", keys⟩
  | rename src dst => ⟨ascii "RENAME", [src, dst]⟩

/-- The keys that the operation is about. -/
def keys : SetOp → List Bytes
  | sadd key _ _ => [key]
  | srem key _ _ => [key]
  | scard key => [key]
  | sismember key _ => [key]
  | smembers key => [key]
  | sinter key rest => key :: rest
  | sunion keys _ => keys
  | «exists» keys _ => keys
  | del keys _ => keys
  | rename src dst => [src, dst]

/-- The sets afterwards. -/
def apply : SetOp → SetDb → SetDb
  | sadd key members _, db => Function.update db key (db key ∪ members.toFinset)
  | srem key members _, db => Function.update db key (db key \ members.toFinset)
  | del keys _, db => fun key => if keys.contains key then ∅ else db key
  | rename src dst, db =>
    if db src = ∅ then db else Function.update (Function.update db src ∅) dst (db src)
  | _, db => db

/-- The reply, from the sets before. Members are listed in ascending order. -/
def reply : SetOp → SetDb → Reply
  | sadd key members _, db => .count (members.toFinset \ db key).card
  | srem key members _, db => .count (members.toFinset ∩ db key).card
  | scard key, db => .count (db key).card
  | sismember key member, db => .truth (member ∈ db key)
  | smembers key, db => .strings ((db key).sort (· ≤ ·))
  | sinter key rest, db =>
    .strings (((db key).filter fun m => ∀ key ∈ rest, m ∈ db key).sort (· ≤ ·))
  | sunion keys _, db => .strings (((keys.map db).foldr (· ∪ ·) ∅).sort (· ≤ ·))
  | «exists» keys _, db => .count (keys.countP fun key => db key ≠ ∅)
  | del keys _, db => .count (keys.toFinset.filter fun key => db key ≠ ∅).card
  | rename src _, db => if db src = ∅ then .noSuchKey else .ok

/-- The reference: finite sets, and their reply as it is sent. -/
def reference (_ : UInt64) (op : SetOp) (db : SetDb) : Option Bytes × SetDb :=
  (some (op.reply db).bytes, op.apply db)

end SetOp

/-! ## What the store holds -/

/-- The entry that stands for a finite set: none for the empty one. -/
def setEntry (a : Finset Bytes) : Option Entry :=
  if a = ∅ then none else some ⟨.set (ofMembers a), 0⟩

variable {F : Bytes → Prop} {now later : UInt64} {s : Store} {db : SetDb} {key : Bytes}
  {keys : List Bytes}

/-- Under the keys in `F`, the store holds the given sets. -/
def HoldsSets (F : Bytes → Prop) (now : UInt64) (s : Store) (db : SetDb) : Prop :=
  ∀ key, F key → (s.live now).find? key = setEntry (db key)

/-- Sets have no deadlines. -/
theorem filter_setEntry (now : UInt64) (a : Finset Bytes) :
    (setEntry a).filter (alive now) = setEntry a := by
  rw [setEntry]
  split_ifs <;> rfl

/-- The entry of a finite set holds it. -/
theorem setOf_setEntry (a : Finset Bytes) : setOf (setEntry a) = ofMembers a := by
  rw [setEntry]
  split_ifs with hempty
  · rw [hempty, ofMembers_empty]
    rfl
  · rfl

/-- Only the empty set has no entry. -/
theorem setEntry_eq_none {a : Finset Bytes} : setEntry a = none ↔ a = ∅ := by
  rw [setEntry]
  split_ifs with hempty
  · exact iff_of_true rfl hempty
  · exact iff_of_false id hempty

/-- A key is there if its set is not empty. -/
theorem isSome_setEntry (a : Finset Bytes) : (setEntry a).isSome = decide (a ≠ ∅) := by
  rw [Bool.eq_iff_iff, decide_eq_true_iff, Option.isSome_iff_ne_none, ne_eq, setEntry_eq_none]

namespace HoldsSets

/-- What is live under one of the keys. -/
theorem find (h : HoldsSets F now s db) (hkey : F key) :
    findLive now s.data key = setEntry (db key) := by
  rw [← find?_live]
  exact h key hkey

/-- Sets have no deadlines, so they are there later as well. -/
theorem mono (h : HoldsSets F now s db) (hle : now ≤ later) : HoldsSets F later s db := by
  intro key hkey
  rw [← purge_live hle, find?_purge, h key hkey, filter_setEntry]

/-- The set that the store sees under one of the keys. -/
theorem setAt (h : HoldsSets F now s db) (hkey : F key) :
    s.setAt now key = ofMembers (db key) := by
  rw [Store.setAt, h.find hkey, setOf_setEntry]

/-- The sets that the store sees under some of the keys. -/
theorem map_setAt (h : HoldsSets F now s db) (hkeys : ∀ key ∈ keys, F key) :
    keys.map (s.setAt now) = (keys.map db).map ofMembers := by
  rw [List.map_map]
  exact List.map_congr_left fun key hkey => h.setAt (hkeys key hkey)

/-- Nothing but sets is under the keys. -/
theorem onlySets (h : HoldsSets F now s db) (hkeys : ∀ key ∈ keys, F key) :
    OnlySets now s keys := by
  intro key hkey e hlive
  rw [h.find (hkeys key hkey), setEntry] at hlive
  split_ifs at hlive
  rw [← Option.some.inj hlive]
  rfl

end HoldsSets

/-! ## One command -/

/-- A read of the entry that stands for a set, with what it reports of an empty one as its
default. -/
theorem orDefault_setEntry {β : Type} {default : β} {reply : β → Reply}
    {hreply : ∀ b, (reply b).isError = false} {f : FlatSet Bytes → β}
    (hdefault : default = f FlatMap.empty) (a : Finset Bytes) :
    (Look.orDefault setValue default reply hreply f).run (setEntry a) =
      reply (f (ofMembers a)) := by
  rw [setEntry]
  split_ifs with hempty
  · rw [hempty, ofMembers_empty, ← hdefault]
    rfl
  · rfl

/-- A read of one set. -/
theorem dispatch_lookSet {name : Bytes} {rest : List Bytes}
    {parse : UInt64 → List Bytes → Except Reply Look} {l : Look} {reply : Reply}
    (hrow : specTable.lookup name = some (.look parse)) (hparse : parse now rest = .ok l)
    (h : HoldsSets F now s db) (hkey : F key) (hrun : l.run (setEntry (db key)) = reply) :
    dispatch now ⟨name, key :: rest⟩ s = (reply.bytes, s) := by
  rw [dispatch_look hrow hparse, h.find hkey, hrun]

/-- `SADD` joins the members to the set, and counts the new ones. -/
theorem sadd_setEntry (members : List Bytes) (hmembers : members ≠ []) (a : Finset Bytes) :
    (Update.sadd members hmembers).run (setEntry a) =
      (.count (members.toFinset \ a).card, some (setEntry (a ∪ members.toFinset))) := by
  have hafter : setEntry (a ∪ members.toFinset) =
      some ⟨.set (ofMembers (a ∪ members.toFinset)), 0⟩ := by
    refine if_neg fun hempty => hmembers ?_
    exact List.toFinset_eq_empty_iff members |>.mp (Finset.union_eq_empty.mp hempty).2
  rw [hafter, setEntry]
  split_ifs with hempty
  · -- a fresh set is begun
    have hinsert := insertAll_ofMembers members ∅
    rw [ofMembers_empty] at hinsert
    rw [hempty]
    simp only [Update.sadd, Update.run, onType, hinsert]
    rfl
  · show (Reply.count (FlatMap.insertAll (members.map fun member => (member, ())) (ofMembers a)).1,
      some (some (Entry.mk (.set (FlatMap.insertAll (members.map fun member => (member, ()))
        (ofMembers a)).2) 0))) = _
    rw [insertAll_ofMembers]

/-- `SREM` takes the members from the set, and counts those that were there. -/
theorem srem_setEntry (members : List Bytes)
    {hT : ∀ d : FlatSet Bytes, d.isEmpty = false → (setValue.wrap d).NonEmpty}
    (a : Finset Bytes) :
    (Update.remove setValue members hT).run (setEntry a) =
      (.count (members.toFinset ∩ a).card, some (setEntry (a \ members.toFinset))) := by
  rw [setEntry]
  split_ifs with hempty
  · rw [hempty, Finset.inter_empty, Finset.empty_sdiff]
    rfl
  · rw [Update.remove_right rfl, eraseAll_ofMembers, setEntry]
    simp only [isEmpty_ofMembers]
    rfl

/-- A write to one set. -/
theorem served_holdsSets {run : Option Entry → Effect} {reply : Reply} {a : Finset Bytes}
    (h : HoldsSets F now s db) (hkey : F key)
    (hrun : run (setEntry (db key)) = (reply, some (setEntry a))) :
    (served now s key run).1 = reply.bytes ∧
      HoldsSets F now (served now s key run).2 (Function.update db key a) := by
  rw [served, h.find hkey, hrun]
  refine ⟨rfl, fun key' hkey' => ?_⟩
  show (purge (alive now) (s.data.put key (setEntry a))).find? key' = _
  rw [purge_put, filter_setEntry, FlatMap.find?_put]
  by_cases heq : key = key'
  · rw [← heq, if_pos rfl, Function.update_self]
  · rw [if_neg heq, Function.update_of_ne (Ne.symm heq)]
    exact h key' hkey'

/-- `EXISTS` counts every occurrence of a key. -/
theorem dispatch_exists (h : HoldsSets F now s db) (hne : keys ≠ [])
    (hkeys : ∀ key ∈ keys, F key) :
    dispatch now ⟨ascii "EXISTS", keys⟩ s =
      ((Reply.count (keys.countP fun key => db key ≠ ∅)).bytes, s) := by
  have hrow : specTable.lookup (ascii "EXISTS") = some .«exists» := rfl
  have harity : Command.atLeast ⟨ascii "EXISTS", keys⟩ 1 := List.length_pos_iff.mpr hne
  have hcount : (keys.map (findLive now s.data)).countP Option.isSome =
      keys.countP fun key => db key ≠ ∅ := by
    rw [List.countP_map]
    refine List.countP_congr fun key hkey => ?_
    rw [Function.comp_apply, h.find (hkeys key hkey), isSome_setEntry]
  rw [dispatch_eq hrow, Spec.«exists», serve_gather, if_pos harity, hcount]

/-- `DEL` counts a key once. -/
theorem dispatch_del_sets (h : HoldsSets F now s db) (hne : keys ≠ [])
    (hkeys : ∀ key ∈ keys, F key) :
    (dispatch now ⟨ascii "DEL", keys⟩ s).1 =
        (Reply.count (keys.toFinset.filter fun key => db key ≠ ∅).card).bytes ∧
      HoldsSets F now (dispatch now ⟨ascii "DEL", keys⟩ s).2
        fun key => if keys.contains key then ∅ else db key := by
  obtain ⟨hcount, hlive⟩ := runCells_removal now keys s.data
  -- a key named twice is counted once, as in a finite set of keys
  have hpresent : (FlatMap.eraseAll keys (s.live now)).1 =
      (keys.toFinset.filter fun key => db key ≠ ∅).card := by
    refine FlatMap.eraseAll_count fun key hkey => ?_
    rw [h key (hkeys key hkey), ne_eq, setEntry_eq_none]
  rw [dispatch_del hne]
  refine ⟨?_, fun key hkey => ?_⟩
  · exact congrArg (fun n : Nat => respCount n) (hcount.trans hpresent)
  · show (purge (alive now) _).find? key = _
    rw [hlive, FlatMap.find?_eraseAll, Lookup.unsetAll_eq]
    show _ = setEntry (if keys.contains key then ∅ else db key)
    by_cases hmem : key ∈ keys
    · rw [if_pos hmem, if_pos (List.contains_iff_mem.mpr hmem)]
      exact (setEntry_eq_none.mpr rfl).symm
    · rw [if_neg hmem, if_neg (mt List.contains_iff_mem.mp hmem)]
      exact h key hkey

/-- `RENAME` moves a set, over the one that is there. -/
theorem dispatch_rename_sets {src dst : Bytes} (h : HoldsSets F now s db) (hsrc : F src) :
    (dispatch now ⟨ascii "RENAME", [src, dst]⟩ s).1 = ((SetOp.rename src dst).reply db).bytes ∧
      HoldsSets F now (dispatch now ⟨ascii "RENAME", [src, dst]⟩ s).2
        ((SetOp.rename src dst).apply db) := by
  have hfind : (s.live now).find? src = setEntry (db src) := h src hsrc
  rw [dispatch_rename, Store.rename_fst, h.find hsrc, isSome_setEntry, SetOp.reply, SetOp.apply]
  -- without a source nothing moves and the reply is an error
  by_cases hempty : db src = ∅
  · rw [if_pos hempty, if_pos hempty]
    refine ⟨by rw [hempty]; rfl, fun key hkey => ?_⟩
    show ((s.rename now src dst).2.live now).find? key = _
    rw [Store.live_rename, FlatMap.rename_of_none (hfind.trans (setEntry_eq_none.mpr hempty))]
    exact h key hkey
  · rw [if_neg hempty, if_neg hempty]
    refine ⟨by rw [decide_eq_true hempty]; rfl, fun key hkey => ?_⟩
    have hsome : (s.live now).find? src = some ⟨.set (ofMembers (db src)), 0⟩ :=
      hfind.trans (if_neg hempty)
    show ((s.rename now src dst).2.live now).find? key = _
    rw [Store.live_rename, FlatMap.rename_of_some hsome, FlatMap.find?_put, FlatMap.find?_put]
    -- the destination first: a key renamed to itself keeps its set
    by_cases hdst : dst = key
    · rw [if_pos hdst, ← hdst, Function.update_self, setEntry, if_neg hempty]
    · rw [if_neg hdst, Function.update_of_ne (Ne.symm hdst)]
      by_cases heq : src = key
      · rw [if_pos heq, ← heq, Function.update_self]
        exact (setEntry_eq_none.mpr rfl).symm
      · rw [if_neg heq, Function.update_of_ne (Ne.symm heq)]
        exact h key hkey

/-- **One command**: the reference's reply, and what it leaves. -/
theorem dispatch_setOp (op : SetOp) (hkeys : ∀ key ∈ op.keys, F key) (h : HoldsSets F now s db) :
    (dispatch now op.command s).1 = (op.reply db).bytes ∧
      HoldsSets F now (dispatch now op.command s).2 (op.apply db) := by
  -- each operation is one row of the table, run on the set its key shows
  cases op with
  | sadd key members hmembers =>
    have hrow : specTable.lookup (ascii "SADD") = some .sadd := rfl
    have hkey : F key := hkeys key List.mem_cons_self
    rw [SetOp.command, dispatch_update hrow (dif_neg hmembers)]
    exact served_holdsSets h hkey (sadd_setEntry members hmembers (db key))
  | srem key members hmembers =>
    have hrow : specTable.lookup (ascii "SREM") = some .srem := rfl
    have hkey : F key := hkeys key List.mem_cons_self
    rw [SetOp.command, dispatch_update hrow (dif_neg hmembers)]
    exact served_holdsSets h hkey (srem_setEntry members (db key))
  | scard key =>
    have hrow : specTable.lookup (ascii "SCARD") = some .scard := rfl
    have hrun : (Look.count setValue FlatMap.size).run (setEntry (db key)) =
        .count (db key).card := by
      rw [← size_ofMembers]
      exact orDefault_setEntry (f := FlatMap.size) rfl (db key)
    rw [SetOp.command, dispatch_lookSet hrow rfl h (hkeys key List.mem_cons_self) hrun]
    exact ⟨rfl, h⟩
  | sismember key member =>
    have hrow : specTable.lookup (ascii "SISMEMBER") = some .sismember := rfl
    have hcontains : FlatMap.contains (ofMembers (db key)) member = decide (member ∈ db key) := by
      rw [Bool.eq_iff_iff, decide_eq_true_iff, contains_ofMembers]
    have hrun : (Look.truth setValue fun data => data.contains member).run (setEntry (db key)) =
        .truth (member ∈ db key) := by
      rw [← hcontains]
      exact orDefault_setEntry (f := fun data => data.contains member) rfl (db key)
    rw [SetOp.command, dispatch_lookSet hrow rfl h (hkeys key List.mem_cons_self) hrun]
    exact ⟨rfl, h⟩
  | smembers key =>
    have hrow : specTable.lookup (ascii "SMEMBERS") = some .smembers := rfl
    have hrun : (Look.strings setValue FlatMap.keys).run (setEntry (db key)) =
        .strings ((db key).sort (· ≤ ·)) := by
      rw [← keys_ofMembers]
      exact orDefault_setEntry (f := FlatMap.keys) rfl (db key)
    rw [SetOp.command, dispatch_lookSet hrow rfl h (hkeys key List.mem_cons_self) hrun]
    exact ⟨rfl, h⟩
  | sinter key rest =>
    have hkeys : ∀ key' ∈ key :: rest, F key' := hkeys
    have hreply := dispatch_sinter (List.cons_ne_nil key rest) (h.onlySets hkeys)
    rw [h.map_setAt hkeys, List.map_cons, List.map_cons, interAll_ofMembers, keys_ofMembers]
      at hreply
    refine ⟨?_, ?_⟩
    -- members are answered in order, as a finite set lists them
    · rw [SetOp.command, hreply, SetOp.reply, bytes_strings]
      simp only [List.forall_mem_map]
    · rw [SetOp.command, dispatch_readOnly rfl s]
      exact h
  | sunion keys hne =>
    have hkeys : ∀ key ∈ keys, F key := hkeys
    have hreply := dispatch_sunion hne (h.onlySets hkeys)
    rw [h.map_setAt hkeys, unionAll_ofMembers, keys_ofMembers] at hreply
    refine ⟨?_, ?_⟩
    · rw [SetOp.command, hreply, SetOp.reply, bytes_strings]
    · rw [SetOp.command, dispatch_readOnly rfl s]
      exact h
  | «exists» keys hne =>
    rw [SetOp.command, dispatch_exists h hne hkeys]
    exact ⟨rfl, h⟩
  | del keys hne => exact dispatch_del_sets h hne hkeys
  | rename src dst => exact dispatch_rename_sets h (hkeys src List.mem_cons_self)

/-! ## Runs -/

/-- A step of a run in which a client has the keys in `F`. -/
inductive SetStep (F : Bytes → Prop) where
  | own (op : SetOp) (h : ∀ key ∈ op.keys, F key)
  /-- A sweep, or a command of others. -/
  | other (event : Event) (h : Foreign F event)

namespace SetStep

def own? : SetStep F → Option SetOp
  | own op _ => some op
  | other _ _ => none

def step (now : UInt64) : SetStep F → Store → Option Bytes × Store
  | own op _ => (Event.command op.command).step now
  | other event _ => event.step now

end SetStep

open SetStep

/-- **Sets are finite sets.** Let a client have the keys in `F` for sets, and use any of the
commands on sets, `EXISTS`, `DEL` and `RENAME` on them, while others use other keys and expired
entries are swept. Then it gets the replies of finite sets: unions, differences and
intersections, with their cardinalities, listed in ascending order; and in the end the keys hold
the finite sets that result. -/
theorem sets_are_finite_sets {steps : List (UInt64 × SetStep F)} (hfrom : From now steps)
    (h : HoldsSets F now s db) :
    let own := project own? steps
    answersTo own? step steps s = answers SetOp.reference own db ∧
      ∀ last, now ≤ last → (∀ step ∈ steps, step.1 ≤ last) →
        HoldsSets F last (after step steps s) (after SetOp.reference own db) := by
  intro own
  obtain ⟨hanswers, hafter⟩ := @refines UInt64 (SetStep F) SetOp Store SetDb (Option Bytes) _ step
    now s (HoldsSets F) SetOp.reference own? (fun _ _ => True)
    (fun hle h => h.mono hle)
    (fun {_ _ _ step _} _ hown h => by
      cases step with
      | other event hforeign => cases hown
      | own op hkeys =>
        obtain rfl := Option.some.inj hown
        obtain ⟨hreply, hafter⟩ := dispatch_setOp op hkeys h
        exact ⟨congrArg some hreply, hafter⟩)
    (fun {_ _ _ step} _ hother h => by
      cases step with
      | own op hkeys => cases hother
      | other event hforeign =>
        exact fun key hkey =>
          (step_foreign hforeign (fun _ _ => rfl) key hkey).trans (h key hkey))
    steps hfrom (fun _ _ => trivial) db h
  exact ⟨hanswers, fun last hnow hlast => hafter hnow hlast⟩

/-- Two sets that share a member; the one takes the place of the other. -/
theorem sets_are_finite_sets_two :
    let steps : List (UInt64 × SetStep fun _ => True) := [
      (1, .own (.sadd (ascii "a") [ascii "y", ascii "x", ascii "y"] (by decide))
        fun _ _ => trivial),
      (2, .own (.sadd (ascii "b") [ascii "z", ascii "y"] (by decide)) fun _ _ => trivial),
      (3, .other .sweep trivial),
      (3, .own (.rename (ascii "b") (ascii "a")) fun _ _ => trivial),
      (4, .own (.srem (ascii "a") [ascii "x", ascii "z", ascii "z"] (by decide))
        fun _ _ => trivial),
      (5, .own (.exists [ascii "a", ascii "b", ascii "a"] (by decide)) fun _ _ => trivial)]
    answersTo own? step steps .empty =
      [some (respCount 2), some (respCount 2), some respOk, some (respCount 1),
        some (respCount 2)] := by
  intro steps
  have hstart : HoldsSets (fun _ => True) 1 .empty fun _ => ∅ := fun _ _ => rfl
  rw [(@sets_are_finite_sets (fun _ => True) 1 .empty (fun _ => ∅) steps
    ⟨by decide, by decide, by decide, by decide, by decide, by decide, trivial⟩ hstart).1]
  decide

end Redix
