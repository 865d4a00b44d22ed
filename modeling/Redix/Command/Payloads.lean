import Redix.Base.Observation
import Redix.Command.Lists
import Redix.Command.Relabelled
import Redix.Command.Runs

/-!
# The store carries payloads unread

A client may encrypt what it stores, or replace it by anything else: strings, the elements of
lists and the values of hash fields are carried from commands to replies without a look at them.
If they are all changed by one function, whatever it is, in the store and in the commands, then
the same happens, and the replies carry the changed payloads. Only six commands look inside
(`inspecting`). Keys, fields of hashes and members of sets are compared, and are no payloads.

- `Store.mapPayload`, `Command.mapPayload`, `Reply.mapPayload`: change the payloads;
- `Spec.Carries`: a row does the same with changed payloads;
- `specTable_carries`, `dispatch_carries`: rows, and commands;
- `payloads_carried`: runs.
-/

namespace Redix

open Keyspace Observation

variable {g : Bytes → Bytes} {now : UInt64} {s : Store}

/-! ## Where payloads are -/

/-- Change every other element, from the second on. -/
def mapEveryOther {α : Type} (g : α → α) : List α → List α
  | first :: second :: rest => first :: g second :: mapEveryOther g rest
  | short => short

/-- Which arguments of a command are payloads. -/
inductive PayloadArgs where
  | none
  | second
  | afterFirst
  /-- The second, the fourth, and so on. -/
  | everyOther
  /-- The third, the fifth, and so on. -/
  | fieldValues

/-- Change the payloads among the arguments. -/
def PayloadArgs.map (g : Bytes → Bytes) : PayloadArgs → List Bytes → List Bytes
  | second, key :: value :: rest => key :: g value :: rest
  | afterFirst, key :: values => key :: values.map g
  | everyOther, args => mapEveryOther g args
  | fieldValues, key :: rest => key :: mapEveryOther g rest
  | _, args => args

/-- Where the payloads of a command are. -/
def payloadArgs (name : Bytes) : PayloadArgs :=
  if (["SET", "GETSET"].map ascii).contains name then .second
  else if (["LPUSH", "RPUSH"].map ascii).contains name then .afterFirst
  else if name = ascii "MSET" then .everyOther
  else if name = ascii "HSET" then .fieldValues
  else .none

/-- The command with other payloads. -/
def Command.mapPayload (g : Bytes → Bytes) (cmd : Command) : Command :=
  ⟨cmd.name, (payloadArgs cmd.name).map g cmd.args⟩

/-- Which strings of a reply are payloads. -/
inductive PayloadReply where
  | none
  | values
  /-- The second, the fourth, and so on. -/
  | everyOther

/-- Change the payloads in a reply. -/
def Reply.mapPayload (g : Bytes → Bytes) : PayloadReply → Reply → Reply
  | .values, bulk s => bulk (g s)
  | .values, array elems => array (elems.map (Option.map g))
  | .everyOther, array elems => array (mapEveryOther (Option.map g) elems)
  | _, reply => reply

/-- Where the payloads of a command's replies are. -/
def payloadReply (name : Bytes) : PayloadReply :=
  if (["GET", "GETSET", "MGET", "LPOP", "RPOP", "LINDEX", "LRANGE", "HGET", "HVALS"].map
    ascii).contains name then .values
  else if name = ascii "HGETALL" then .everyOther
  else .none

/-- The commands that look at payloads. -/
def inspecting : List Bytes := ["APPEND", "STRLEN", "INCR", "INCRBY", "DECR", "DECRBY"].map ascii

/-- The value with other payloads. -/
def RedisValue.mapPayload (g : Bytes → Bytes) : RedisValue → RedisValue
  | string data => string (g data)
  | list data => list (data.map g)
  | hash data => hash (data.mapValues g)
  | set data => set data

/-- The entry with other payloads. -/
def Entry.mapPayload (g : Bytes → Bytes) (e : Entry) : Entry :=
  { e with value := e.value.mapPayload g }

/-- The store with other payloads. -/
def Store.mapPayload (g : Bytes → Bytes) (s : Store) : Store := s.relabel (Entry.mapPayload g)

/-! ## Data -/

section data

/-- A string is a payload. -/
theorem get?_string (e : Entry) :
    stringValue.get? (e.mapPayload g).value = (stringValue.get? e.value).map g := by
  obtain ⟨value, deadline⟩ := e
  cases value <;> rfl

/-- The elements of a list are payloads. -/
theorem get?_list (e : Entry) :
    listValue.get? (e.mapPayload g).value = (listValue.get? e.value).map (List.map g) := by
  obtain ⟨value, deadline⟩ := e
  cases value <;> rfl

/-- The values of a hash are payloads, its fields are not. -/
theorem get?_hash (e : Entry) :
    hashValue.get? (e.mapPayload g).value =
      (hashValue.get? e.value).map (FlatMap.mapValues g) := by
  obtain ⟨value, deadline⟩ := e
  cases value <;> rfl

/-- The members of a set are no payloads. -/
theorem get?_set (e : Entry) :
    setValue.get? (e.mapPayload g).value = (setValue.get? e.value).map id := by
  obtain ⟨value, deadline⟩ := e
  cases value <;> rfl

/-- A payload says nothing of the type. -/
theorem type_mapPayload (e : Entry) : (e.mapPayload g).value.type = e.value.type := by
  obtain ⟨value, deadline⟩ := e
  cases value <;> rfl

theorem length_mapEveryOther {α : Type} (f : α → α) (l : List α) :
    (mapEveryOther f l).length = l.length := by
  fun_induction mapEveryOther f l with
  | case1 first second rest ih => simp only [List.length_cons, ih]
  | case2 => rfl

/-- In pairs, the second of each is the payload. -/
theorem pairs_mapEveryOther (args : List Bytes) :
    pairs (mapEveryOther g args) = (pairs args).map fun pair => (pair.1, g pair.2) := by
  fun_induction mapEveryOther g args with
  | case1 first second rest ih => exact congrArg ((first, g second) :: ·) ih
  | case2 args hargs => rw [pairs.eq_2 args hargs, List.map_nil]

/-- Fields and values in turn. -/
theorem mapEveryOther_flatMap (entries : List (Bytes × Bytes)) :
    mapEveryOther (Option.map g) ((entries.flatMap fun e => [e.1, e.2]).map some) =
      ((entries.map fun e => (e.1, g e.2)).flatMap fun e => [e.1, e.2]).map some := by
  induction entries with
  | nil => rfl
  | cons e rest ih => exact congrArg (fun tail => some e.1 :: some (g e.2) :: tail) ih

/-- `LRANGE` takes elements by their position. -/
theorem slice_map (data : List Bytes) (start stop : Int64) :
    slice (data.map g) start stop = (slice data start stop).map g := by
  simp only [slice, List.length_map, ← List.map_drop, ← List.map_take]
  split_ifs <;> rfl

/-- `LINDEX` takes an element by its position. -/
theorem element_map (data : List Bytes) (index : Int64) :
    element (data.map g) index = (element data index).map g := by
  simp only [element, List.length_map, List.getElem?_map]
  split_ifs <;> rfl

/-- `LPUSH` does not look at the elements. -/
theorem pushFront_map (values list : List Bytes) :
    Store.pushFront (values.map g) (list.map g) =
      ((Store.pushFront values list).1, (Store.pushFront values list).2.map g) := by
  have hafter : (Store.pushFront (values.map g) (list.map g)).2 =
      (Store.pushFront values list).2.map g := by
    rw [pushFront_eq, pushFront_eq, List.map_append, List.map_reverse]
  refine Prod.ext ?_ hafter
  exact (congrArg List.length hafter).trans (List.length_map g)

/-- `RPUSH` does not look at the elements. -/
theorem pushBack_map (values list : List Bytes) :
    Store.pushBack (values.map g) (list.map g) =
      ((Store.pushBack values list).1, (Store.pushBack values list).2.map g) := by
  have hafter : (Store.pushBack (values.map g) (list.map g)).2 =
      (Store.pushBack values list).2.map g := by
    rw [pushBack_eq, pushBack_eq, List.map_append]
  refine Prod.ext ?_ hafter
  exact (congrArg List.length hafter).trans (List.length_map g)

/-- `LPOP` does not look at the element that it takes. -/
theorem popFront_map (list : List Bytes) :
    Store.popFront (list.map g) =
      (Store.popFront list).map fun taken => (g taken.1, taken.2.map g) := by
  cases list <;> rfl

/-- `RPOP` does not look at the element that it takes. -/
theorem popBack_map (list : List Bytes) :
    Store.popBack (list.map g) =
      (Store.popBack list).map fun taken => (g taken.1, taken.2.map g) := by
  rw [Store.popBack, Store.popBack, List.getLast?_map]
  cases list.getLast? with
  | none => rfl
  | some value => simp only [Option.map_some, List.map_dropLast]

end data

/-! ## Operations on one key -/

/-- The reads correspond. -/
abbrev Look.Carries (g : Bytes → Bytes) (r : PayloadReply) (l l' : Look) : Prop :=
  Look.Relabels (fun _ => True) (Entry.mapPayload g) (Reply.mapPayload g r) l l'

/-- The writes correspond. -/
abbrev Update.Carries (g : Bytes → Bytes) (r : PayloadReply) (u u' : Update) : Prop :=
  Update.Relabels (fun _ => True) (Entry.mapPayload g) (Reply.mapPayload g r) u u'

/-- The row does the same with other payloads. -/
def Spec.Carries (g : Bytes → Bytes) (a : PayloadArgs) (r : PayloadReply) (spec : Spec) : Prop :=
  ∀ now args, Program.Relabelled (fun _ => True) (Entry.mapPayload g) (Reply.mapPayload g r)
    (spec.program now args) (spec.program now (a.map g args))

section rows

variable {r : PayloadReply}

/-- Errors have no payloads. -/
theorem mapPayload_error (g : Bytes → Bytes) (r : PayloadReply) (message : Bytes)
    (h : NoCrlf message) : Reply.mapPayload g r (.error message h) = .error message h := by
  cases r <;> rfl

/-- A command that does not ask the store. -/
theorem talk_carries {answer : List Bytes → Reply} : (Spec.talk answer).Carries g .none .none :=
  fun _ _ => .ret rfl

/-- A read of the first argument. -/
theorem carries_look {parse : UInt64 → List Bytes → Except Reply Look}
    (hparse : ∀ now rest, Parsed (Reply.mapPayload g r) (Look.Carries g r) (parse now rest)
      (parse now rest)) : (Spec.look parse).Carries g .none r := by
  intro now args
  cases args with
  | nil => exact .ret (mapPayload_error g r _ _).symm
  | cons key rest => exact relabelled_look (hparse now rest)

/-- A write to the first argument, which carries nothing. -/
theorem carries_update {parse : UInt64 → List Bytes → Except Reply Update}
    (hparse : ∀ now rest, Parsed (Reply.mapPayload g r) (Update.Carries g r) (parse now rest)
      (parse now rest)) : (Spec.update parse).Carries g .none r := by
  intro now args
  cases args with
  | nil => exact .ret (mapPayload_error g r _ _).symm
  | cons key rest => exact relabelled_update (hparse now rest)

/-- A read that shows the payload of its type. -/
theorem carries_typed {α : Type} {T : ValueKind α} {gT : α → α}
    (htype : ∀ e : Entry, T.get? (e.mapPayload g).value = (T.get? e.value).map gT) {missing : Reply}
    {render : α → Reply} {hmissing : missing.isError = false}
    {hrender : ∀ d, (render d).isError = false}
    (hnone : Reply.mapPayload g r missing = missing)
    (hsome : ∀ d, render (gT d) = Reply.mapPayload g r (render d)) :
    Look.Carries g r (.typed T missing render hmissing hrender)
      (.typed T missing render hmissing hrender) :=
  look_typed htype (mapPayload_error g r _ _) hnone.symm hsome

/-- A read that answers from the entry without its payload. -/
theorem carries_untyped {answer : Option Entry → Reply}
    (hanswer : ∀ o : Option Entry, answer (o.map (Entry.mapPayload g)) = answer o) :
    Look.Carries g .none (.untyped answer) (.untyped answer) :=
  fun o _ => hanswer o

/-! ### Reads -/

/-- A reply with one payload, or none. -/
theorem bulk?_map (o : Option Bytes) :
    Reply.bulk? (o.map g) = Reply.mapPayload g .values (Reply.bulk? o) := by
  cases o <;> rfl

/-- A reply with payloads only. -/
theorem strings_map (values : List Bytes) :
    Reply.strings (values.map g) = Reply.mapPayload g .values (Reply.strings values) := by
  show Reply.array ((values.map g).map some) = .array ((values.map some).map (Option.map g))
  rw [List.map_map, List.map_map]
  rfl

theorem get_carries : Spec.get.Carries g .none .values :=
  carries_look fun _ _ => .noArgs (mapPayload_error g _ _ _)
    (carries_typed get?_string rfl fun _ => rfl)

theorem hget_carries : Spec.hget.Carries g .none .values :=
  carries_look fun _ _ => .oneArg (mapPayload_error g _ _ _) fun field =>
    .ok (carries_typed get?_hash rfl fun d =>
      (congrArg Reply.bulk? (FlatMap.find?_mapValues g d field)).trans (bulk?_map _))

theorem hvals_carries : Spec.hvals.Carries g .none .values :=
  carries_look fun _ _ => .noArgs (mapPayload_error g _ _ _)
    (carries_typed get?_hash rfl fun d =>
      (congrArg Reply.strings (FlatMap.values_mapValues g d)).trans (strings_map _))

theorem hgetall_carries : Spec.hgetall.Carries g .none .everyOther :=
  carries_look fun _ _ => .noArgs (mapPayload_error g _ _ _)
    (carries_typed get?_hash rfl fun d =>
      congrArg Reply.array (mapEveryOther_flatMap d.entries).symm)

theorem hkeys_carries : Spec.hkeys.Carries g .none .none :=
  carries_look fun _ _ => .noArgs rfl
    (carries_typed get?_hash rfl fun d =>
      congrArg Reply.strings (FlatMap.keys_mapValues g d))

theorem hlen_carries : Spec.hlen.Carries g .none .none :=
  carries_look fun _ _ => .noArgs rfl
    (carries_typed get?_hash rfl fun d =>
      congrArg (fun n : Nat => Reply.count n) (FlatMap.size_mapValues g d))

theorem hexists_carries : Spec.hexists.Carries g .none .none :=
  carries_look fun _ _ => .oneArg rfl fun field =>
    .ok (carries_typed get?_hash rfl fun d =>
      congrArg Reply.truth (FlatMap.contains_mapValues g d field))

theorem lindex_carries : Spec.lindex.Carries g .none .values :=
  carries_look fun _ _ => .oneArg (mapPayload_error g _ _ _) fun arg =>
    .signed (mapPayload_error g _ _ _) (fun index => carries_typed get?_list rfl fun d =>
      (congrArg Reply.bulk? (element_map d index)).trans (bulk?_map _)) arg

theorem llen_carries : Spec.llen.Carries g .none .none :=
  carries_look fun _ _ => .noArgs rfl
    (carries_typed get?_list rfl fun _ =>
      congrArg (fun n : Nat => Reply.count n) (List.length_map g))

theorem lrange_carries : Spec.lrange.Carries g .none .values := by
  refine carries_look fun _ _ => .twoArgs (mapPayload_error g _ _ _) fun start stop => ?_
  cases parseI64 start with
  | none => exact .error (mapPayload_error g _ _ _)
  | some start =>
    cases parseI64 stop with
    | none => exact .error (mapPayload_error g _ _ _)
    | some stop =>
      exact .ok (carries_typed get?_list rfl fun d =>
        (congrArg Reply.strings (slice_map d start stop)).trans (strings_map _))

theorem scard_carries : Spec.scard.Carries g .none .none :=
  carries_look fun _ _ => .noArgs rfl (carries_typed get?_set rfl fun _ => rfl)

theorem sismember_carries : Spec.sismember.Carries g .none .none :=
  carries_look fun _ _ => .oneArg rfl fun _ => .ok (carries_typed get?_set rfl fun _ => rfl)

theorem smembers_carries : Spec.smembers.Carries g .none .none :=
  carries_look fun _ _ => .noArgs rfl (carries_typed get?_set rfl fun _ => rfl)

theorem pttl_carries : Spec.pttl.Carries g .none .none :=
  carries_look fun _ _ => .noArgs rfl (carries_untyped fun o => by cases o <;> rfl)

theorem ttl_carries : Spec.ttl.Carries g .none .none :=
  carries_look fun _ _ => .noArgs rfl (carries_untyped fun o => by cases o <;> rfl)

theorem type_carries : Spec.type.Carries g .none .none :=
  carries_look fun _ _ => .noArgs rfl (carries_untyped fun o =>
    typeReply_relabelled type_mapPayload o)

theorem exists_carries : Spec.«exists».Carries g .none .none := fun _ _ =>
  relabelled_gather rfl fun os => congrArg (fun n : Nat => Reply.count n) (countP_relabelled os)

theorem mget_carries : Spec.mget.Carries g .none .values := by
  intro now args
  refine relabelled_gather (mapPayload_error g _ _ _) fun os => ?_
  show Reply.array ((os.map _).map Store.stringOf) =
    .array ((os.map Store.stringOf).map (Option.map g))
  rw [List.map_map, List.map_map]
  congr 2
  funext o
  cases o with
  | none => rfl
  | some e => exact get?_string e

/-- Sets stay as they are. -/
theorem get?_set_same (e : Entry) :
    setValue.get? (e.mapPayload g).value = setValue.get? e.value := by
  rw [get?_set, Option.map_id]
  rfl

theorem sinter_carries : Spec.sinter.Carries g .none .none := fun _ _ =>
  relabelled_gather rfl (algebra_relabelled type_mapPayload fun os =>
    interLoop_relabelled get?_set_same os none)

theorem sunion_carries : Spec.sunion.Carries g .none .none := fun _ _ =>
  relabelled_gather rfl (algebra_relabelled type_mapPayload fun os =>
    unionLoop_relabelled get?_set_same os FlatMap.empty)

theorem keys_carries : Spec.keys.Carries g .none .none := by
  intro now args
  refine relabelled_survey (fun _ _ => rfl) fun answer hparse m => ?_
  rcases args with _ | ⟨pattern, _ | ⟨extra, rest⟩⟩ <;> cases hparse
  simp only [FlatMap.keys_mapValues]
  rfl

theorem dbsize_carries : Spec.dbsize.Carries g .none .none := by
  intro now args
  refine relabelled_survey (fun _ _ => rfl) fun answer hparse m => ?_
  cases args <;> cases hparse
  simp only [FlatMap.size_mapValues]
  rfl

/-! ### Writes -/

/-- `EXPIRE` and `PEXPIRE`. -/
theorem timer_carries {due : UInt64 → UInt64 → UInt64} :
    (Spec.update fun now => oneArg (unsigned fun n => .expire (due now n))).Carries g .none .none :=
  carries_update fun _ _ => .oneArg rfl fun arg =>
    .unsigned rfl (fun _ o _ => by cases o <;> rfl) arg

theorem persist_carries : Spec.persist.Carries g .none .none :=
  carries_update fun _ _ => .noArgs rfl fun o _ => by cases o <;> rfl

/-- Additions that correspond. -/
theorem add_carries {α : Type} {T : ValueKind α} {gT : α → α} {fresh : α}
    {grow grow' : α → Nat × α} {hgrow : ∀ d, (T.wrap (grow d).2).NonEmpty}
    {hgrow' : ∀ d, (T.wrap (grow' d).2).NonEmpty}
    (htype : ∀ e : Entry, T.get? (e.mapPayload g).value = (T.get? e.value).map gT)
    (hwrap : ∀ d, T.wrap (gT d) = (T.wrap d).mapPayload g) (hfresh : gT fresh = fresh)
    (hsame : ∀ d, grow' (gT d) = ((grow d).1, gT (grow d).2)) :
    Update.Carries g .none (.add T fresh grow hgrow) (.add T fresh grow' hgrow') := by
  intro o ho
  refine onType_relabels htype rfl ?_ (fun e d _ => ?_) ho
  -- a new collection has nothing in it to change
  · have hfresh' : grow' fresh = ((grow fresh).1, gT (grow fresh).2) := by
      rw [← hsame, hfresh]
    simp only [hfresh', hwrap]
    rfl
  · simp only [hsame, hwrap]
    rfl

/-- Removals. -/
theorem remove_carries {ν : Type} {T : ValueKind (FlatMap Bytes ν)}
    {gT : FlatMap Bytes ν → FlatMap Bytes ν} {elems : List Bytes}
    {hT : ∀ d, d.isEmpty = false → (T.wrap d).NonEmpty}
    (htype : ∀ e : Entry, T.get? (e.mapPayload g).value = (T.get? e.value).map gT)
    (hwrap : ∀ d, T.wrap (gT d) = (T.wrap d).mapPayload g)
    (hempty : ∀ d, (gT d).isEmpty = d.isEmpty)
    (hsame : ∀ d, FlatMap.eraseAll elems (gT d) =
      ((FlatMap.eraseAll elems d).1, gT (FlatMap.eraseAll elems d).2)) :
    Update.Carries g .none (.remove T elems hT) (.remove T elems hT) := by
  intro o ho
  refine onType_relabels htype rfl ?_ (fun e d _ => ?_) ho
  · rfl
  · simp only [hsame, hempty, hwrap]
    split_ifs <;> rfl

/-- A pop. -/
theorem pop_carries {take : List Bytes → Option (Bytes × List Bytes)}
    (htake : ∀ list, take (list.map g) =
      (take list).map fun taken => (g taken.1, taken.2.map g)) :
    Update.Carries g .values (.pop take) (.pop take) := by
  intro o ho
  refine onType_relabels get?_list rfl ?_ (fun e list _ => ?_) ho
  · rfl
  · simp only [htake]
    -- whether the list is empty afterwards does not depend on what is in it
    cases take list with
    | none => rfl
    | some taken =>
      simp only [Option.map_some, List.isEmpty_map]
      split_ifs <;> rfl

theorem getset_carries : Spec.getset.Carries g .second .values := by
  intro now args
  rcases args with _ | ⟨key, _ | ⟨value, rest⟩⟩
  · exact .ret rfl
  · exact .ret rfl
  · refine relabelled_update ?_
    cases rest with
    | cons extra rest => exact .error rfl
    | nil =>
      refine .ok fun o ho => onType_relabels get?_string rfl ?_ (fun e old _ => ?_) ho
      · rfl
      · rfl

theorem set_carries : Spec.set.Carries g .second .none := by
  intro now args
  rcases args with _ | ⟨key, _ | ⟨value, options⟩⟩
  · exact .ret rfl
  · exact .ret rfl
  · refine relabelled_update ?_
    simp only
    -- the options are read as before, and only then is the value stored
    cases setOptions now options {} with
    | error error => cases error <;> exact .error rfl
    | ok opts =>
      refine .ok fun o _ => ?_
      simp only [Update.run, Option.isSome_map]
      split_ifs <;> rfl

theorem lpush_carries : Spec.lpush.Carries g .afterFirst .none := by
  intro now args
  cases args with
  | nil => exact .ret rfl
  | cons key values =>
    refine relabelled_update ?_
    simp only [someArgs, List.map_eq_nil_iff]
    split_ifs
    · exact .error rfl
    · exact .ok (add_carries get?_list (fun _ => rfl) rfl fun list => pushFront_map values list)

theorem rpush_carries : Spec.rpush.Carries g .afterFirst .none := by
  intro now args
  cases args with
  | nil => exact .ret rfl
  | cons key values =>
    refine relabelled_update ?_
    simp only [someArgs, List.map_eq_nil_iff]
    split_ifs
    · exact .error rfl
    · exact .ok (add_carries get?_list (fun _ => rfl) rfl fun list => pushBack_map values list)

theorem hset_carries : Spec.hset.Carries g .fieldValues .none := by
  intro now args
  cases args with
  | nil => exact .ret rfl
  | cons key rest =>
    refine relabelled_update ?_
    -- changing the values leaves the arity
    simp only [length_mapEveryOther]
    split_ifs
    · refine .ok (add_carries get?_hash (fun _ => rfl) rfl fun d => ?_)
      rw [pairs_mapEveryOther]
      exact FlatMap.insertAll_mapValues g (pairs rest) d
    · exact .error rfl

theorem lpop_carries : Spec.lpop.Carries g .none .values :=
  carries_update fun _ _ => .noArgs rfl (pop_carries popFront_map)

theorem rpop_carries : Spec.rpop.Carries g .none .values :=
  carries_update fun _ _ => .noArgs rfl (pop_carries popBack_map)

theorem del_carries : Spec.del.Carries g .none .none := fun _ _ =>
  relabelled_delete rfl fun _ => rfl

theorem rename_carries : Spec.rename.Carries g .none .none := fun _ _ =>
  relabelled_move rfl rfl rfl

theorem flushdb_carries : Spec.flushdb.Carries g .none .none := fun _ _ =>
  relabelled_flush rfl rfl

theorem mset_carries : Spec.mset.Carries g .everyOther .none := fun _ args =>
  relabelled_assign (length_mapEveryOther g args) (pairs_mapEveryOther args) (fun _ => rfl) rfl rfl

theorem hdel_carries : Spec.hdel.Carries g .none .none :=
  carries_update fun _ _ => .someArgs rfl fun fields _ =>
    remove_carries get?_hash (fun _ => rfl) (FlatMap.isEmpty_mapValues g)
      (FlatMap.eraseAll_mapValues g fields)

theorem srem_carries : Spec.srem.Carries g .none .none :=
  carries_update fun _ _ => .someArgs rfl fun _ _ =>
    remove_carries get?_set (fun _ => rfl) (fun _ => rfl) fun _ => rfl

theorem sadd_carries : Spec.sadd.Carries g .none .none :=
  carries_update fun _ _ => .someArgs rfl fun _ _ =>
    add_carries get?_set (fun _ => rfl) rfl fun _ => rfl

end rows

/-! ## Commands -/

/-- **Every row that does not look at payloads carries them.** -/
theorem specTable_carries : ∀ row ∈ specTable, row.1 ∉ inspecting →
    row.2.Carries g (payloadArgs row.1) (payloadReply row.1) := by
  -- the six rows that look inside are left out
  have looks {name : Bytes} {row : Prop} (h : name ∈ inspecting) : name ∉ inspecting → row :=
    fun hnot => absurd h hnot
  simp only [specTable, List.forall_mem_cons, List.not_mem_nil, false_imp_iff, implies_true,
    and_true]
  exact ⟨looks (by decide), fun _ => dbsize_carries, looks (by decide), looks (by decide),
    fun _ => del_carries, fun _ => talk_carries, fun _ => exists_carries, fun _ => timer_carries,
    fun _ => flushdb_carries, fun _ => get_carries, fun _ => getset_carries, fun _ => hdel_carries,
    fun _ => hexists_carries, fun _ => hget_carries, fun _ => hgetall_carries,
    fun _ => hkeys_carries, fun _ => hlen_carries, fun _ => hset_carries, fun _ => hvals_carries,
    looks (by decide), looks (by decide), fun _ => keys_carries, fun _ => lindex_carries,
    fun _ => llen_carries, fun _ => lpop_carries, fun _ => lpush_carries, fun _ => lrange_carries,
    fun _ => mget_carries, fun _ => mset_carries, fun _ => persist_carries, fun _ => timer_carries,
    fun _ => talk_carries, fun _ => pttl_carries, fun _ => rename_carries, fun _ => rpop_carries,
    fun _ => rpush_carries, fun _ => sadd_carries, fun _ => scard_carries, fun _ => set_carries,
    fun _ => sinter_carries, fun _ => sismember_carries, fun _ => smembers_carries,
    fun _ => srem_carries, looks (by decide), fun _ => sunion_carries, fun _ => ttl_carries,
    fun _ => type_carries⟩

/-- The reply with other payloads. -/
def Carried (g : Bytes → Bytes) (name bytes bytes' : Bytes) : Prop :=
  (payloadReply name = .none ∧ bytes' = bytes) ∨
    ∃ reply : Reply, bytes = reply.bytes ∧
      bytes' = (reply.mapPayload g (payloadReply name)).bytes

/-- A reply without payloads is the same. -/
theorem Carried.eq {name bytes bytes' : Bytes} (h : Carried g name bytes bytes')
    (hname : payloadReply name = .none) : bytes' = bytes := by
  rcases h with ⟨-, hsame⟩ | ⟨reply, rfl, rfl⟩
  · exact hsame
  · rw [hname]
    rfl

/-- An unknown command carries nothing. -/
theorem payloadReply_unknown {name : Bytes} (hrow : specTable.lookup name = none) :
    payloadReply name = .none := by
  have hknown : ∀ known ∈ ["GET", "GETSET", "MGET", "LPOP", "RPOP", "LINDEX", "LRANGE", "HGET",
      "HVALS", "HGETALL"].map ascii, specTable.lookup known ≠ none := by
    simp only [List.map_cons, List.map_nil, List.forall_mem_cons]
    refine ⟨?_, ?_, ?_, ?_, ?_, ?_, ?_, ?_, ?_, ?_, fun _ h => absurd h List.not_mem_nil⟩ <;>
      exact Option.some_ne_none _
  rw [payloadReply]
  split_ifs with hvalues hpairs
  · refine absurd hrow (hknown name ?_)
    have hname := List.contains_iff_mem.mp hvalues
    simp only [List.map_cons, List.map_nil, List.mem_cons] at hname ⊢
    tauto
  · refine absurd hrow (hknown name ?_)
    rw [hpairs]
    decide
  · rfl

/-- **One command** with other payloads. -/
theorem dispatch_carries (g : Bytes → Bytes) (now : UInt64) {cmd : Command}
    (h : cmd.name ∉ inspecting) (s : Store) :
    Carried g cmd.name (dispatch now cmd s).1
      (dispatch now (cmd.mapPayload g) (s.mapPayload g)).1 ∧
    (dispatch now (cmd.mapPayload g) (s.mapPayload g)).2 =
      (dispatch now cmd s).2.mapPayload g := by
  cases hrow : specTable.lookup cmd.name with
  | none =>
    have hrow' : specTable.lookup (cmd.mapPayload g).name = none := hrow
    rw [dispatch_unknown hrow, dispatch_unknown hrow']
    exact ⟨.inl ⟨payloadReply_unknown hrow, rfl⟩, rfl⟩
  | some spec =>
    have hrow' : specTable.lookup (cmd.mapPayload g).name = some spec := hrow
    have hcarries : Program.Relabelled (fun _ => True) (Entry.mapPayload g)
        (Reply.mapPayload g (payloadReply cmd.name)) (spec.program now cmd.args)
        (spec.program now (cmd.mapPayload g).args) :=
      specTable_carries _ (mem_of_lookup hrow) h now cmd.args
    -- payloads have nothing to do with deadlines
    have hlive : ∀ e : Entry, True → alive now (e.mapPayload g) = alive now e := fun _ _ => rfl
    have hexec := exec_relabelled hlive hcarries (Program.keeps_true _)
      (fun key e (_ : e ∈ s.data.find? key) => trivial)
    rw [dispatch_eq hrow, dispatch_eq hrow', Spec.serve, Spec.serve, Store.mapPayload, hexec]
    exact ⟨.inr ⟨_, rfl, rfl⟩, rfl⟩

/-- A sweep, which looks at no payloads. -/
theorem sweep_carries (g : Bytes → Bytes) (now : UInt64) (s : Store) :
    (s.mapPayload g).sweepExpired now = (s.sweepExpired now).mapPayload g := by
  have hlive : ∀ e : Entry, True → alive now (e.mapPayload g) = alive now e := fun _ _ => rfl
  exact sweepExpired_relabelled hlive fun _ _ _ => trivial

/-! ## Runs -/

/-- The event with other payloads. -/
def Event.mapPayload (g : Bytes → Bytes) : Event → Event
  | command cmd => command (cmd.mapPayload g)
  | sweep => sweep

/-- The run with other payloads. -/
def Trace.mapPayload (g : Bytes → Bytes) (trace : Trace) : Trace :=
  trace.map fun step => (step.1, step.2.mapPayload g)

/-- **Any run** without the six commands leaves the store that it left before, with other
payloads. -/
theorem after_carries (g : Bytes → Bytes) {trace : Trace}
    (htrace : ∀ step ∈ trace, ∀ cmd, step.2 = .command cmd → cmd.name ∉ inspecting) (s : Store) :
    after Event.step (trace.mapPayload g) (s.mapPayload g) =
      (after Event.step trace s).mapPayload g := by
  induction trace generalizing s with
  | nil => rfl
  | cons step rest ih =>
    obtain ⟨now, event⟩ := step
    obtain ⟨hfirst, hrest⟩ := List.forall_mem_cons.mp htrace
    have hstep : ((event.mapPayload g).step now (s.mapPayload g)).2 =
        (event.step now s).2.mapPayload g := by
      cases event with
      | command cmd => exact (dispatch_carries g now (hfirst cmd rfl) s).2
      | sweep => exact sweep_carries g now s
    have hafter : after Event.step (Trace.mapPayload g ((now, event) :: rest)) (s.mapPayload g) =
        after Event.step (Trace.mapPayload g rest)
          ((event.mapPayload g).step now (s.mapPayload g)).2 := rfl
    rw [hafter, hstep]
    exact ih hrest _

/-- **The store carries payloads unread.** Change all payloads by any function, those in the
store and those in the commands of a run, which may be any but six. The run leaves the store
that it leaves without the change, changed; and each reply carries the changed payloads. And of
each of the six, a reply shows what is in a payload. -/
theorem payloads_carried :
    (∀ (g : Bytes → Bytes) (trace : Trace) (s : Store),
      (∀ step ∈ trace, ∀ cmd, step.2 = .command cmd → cmd.name ∉ inspecting) →
      let run := after Event.step trace s
      let run' := after Event.step (trace.mapPayload g) (s.mapPayload g)
      run' = run.mapPayload g ∧ ∀ now cmd, cmd.name ∉ inspecting →
        Carried g cmd.name (dispatch now cmd run).1 (dispatch now (cmd.mapPayload g) run').1) ∧
    ∀ name ∈ inspecting, ∃ g args s,
      let cmd : Command := ⟨name, args⟩
      ¬ Carried g name (dispatch 1 cmd s).1 (dispatch 1 (cmd.mapPayload g) (s.mapPayload g)).1 := by
  refine ⟨fun g trace s htrace => ?_, ?_⟩
  · have hafter := after_carries g htrace s
    refine ⟨hafter, fun now cmd hcmd => ?_⟩
    show Carried g cmd.name _ (dispatch now (cmd.mapPayload g) (after _ _ _)).1
    rw [hafter]
    exact (dispatch_carries g now hcmd _).1
  -- with all payloads emptied, each of the six has another reply
  · have hshown {name : Bytes} {args : List Bytes} (hname : payloadReply name = .none)
        (hne : let cmd : Command := ⟨name, args⟩
          let s : Store := Store.empty.set (ascii "k") (ascii "1") 0
          (dispatch 1 (cmd.mapPayload fun _ => []) (s.mapPayload fun _ => [])).1 ≠
            (dispatch 1 cmd s).1) : ∃ g args s,
        let cmd : Command := ⟨name, args⟩
        ¬ Carried g name (dispatch 1 cmd s).1
          (dispatch 1 (cmd.mapPayload g) (s.mapPayload g)).1 :=
      ⟨fun _ => [], args, _, fun hcarried => hne (hcarried.eq hname)⟩
    simp only [inspecting, List.map_cons, List.map_nil, List.forall_mem_cons]
    exact ⟨@hshown _ [ascii "k", []] rfl (by decide), @hshown _ [ascii "k"] rfl (by decide),
      @hshown _ [ascii "k"] rfl (by decide), @hshown _ [ascii "k", ascii "1"] rfl (by decide),
      @hshown _ [ascii "k"] rfl (by decide), @hshown _ [ascii "k", ascii "1"] rfl (by decide),
      fun _ h => absurd h List.not_mem_nil⟩

/-- Values that are stored backwards, in a string and in a hash. -/
theorem payloads_carried_reversed :
    let trace : Trace := [
      (1, .command ⟨ascii "SET", [ascii "k", ascii "abc", ascii "PX", ascii "9"]⟩),
      (2, .command ⟨ascii "HSET", [ascii "h", ascii "f", ascii "xy"]⟩), (3, .sweep)]
    let run := after Event.step trace .empty
    let run' := after Event.step (trace.mapPayload List.reverse)
      (Store.empty.mapPayload List.reverse)
    run' = run.mapPayload List.reverse ∧
      Carried List.reverse (ascii "HGETALL") (dispatch 4 ⟨ascii "HGETALL", [ascii "h"]⟩ run).1
        (dispatch 4 ⟨ascii "HGETALL", [ascii "h"]⟩ run').1 := by
  intro trace run run'
  have htrace : ∀ step ∈ trace, ∀ cmd, step.2 = .command cmd → cmd.name ∉ inspecting := by
    refine List.forall_mem_cons.mpr ⟨fun cmd heq => ?_, List.forall_mem_cons.mpr
      ⟨fun cmd heq => ?_, List.forall_mem_singleton.mpr fun cmd heq => ?_⟩⟩
    · cases heq
      decide
    · cases heq
      decide
    · cases heq
  obtain ⟨hafter, hreplies⟩ := payloads_carried.1 List.reverse trace .empty htrace
  exact ⟨hafter, hreplies 4 ⟨ascii "HGETALL", [ascii "h"]⟩ (by decide)⟩

end Redix
