import Redix.Command.Spec

/-!
# The table of commands

One row for each name of the dispatch table, in its order: `specTable`. Before
it stand the argument parsers and the operations that the rows are put together
from.
-/

namespace Redix

/-! ## Argument parsers -/

section parsers

variable {ω : Type 1}

/-- No argument after the key. -/
def noArgs (op : ω) : List Bytes → Except Reply ω
  | [] => .ok op
  | _ => .error .wrongArity

/-- One argument after the key. -/
def oneArg (f : Bytes → Except Reply ω) : List Bytes → Except Reply ω
  | [arg] => f arg
  | _ => .error .wrongArity

/-- Two arguments after the key. -/
def twoArgs (f : Bytes → Bytes → Except Reply ω) : List Bytes → Except Reply ω
  | [arg₁, arg₂] => f arg₁ arg₂
  | _ => .error .wrongArity

/-- At least one argument after the key. -/
def someArgs (f : (args : List Bytes) → args ≠ [] → ω) (args : List Bytes) :
    Except Reply ω :=
  if h : args = [] then .error .wrongArity else .ok (f args h)

/-- A signed number. -/
def signed (f : Int64 → ω) (arg : Bytes) : Except Reply ω :=
  match parseI64 arg with
  | none => .error .notInteger
  | some n => .ok (f n)

/-- An unsigned number. -/
def unsigned (f : UInt64 → ω) (arg : Bytes) : Except Reply ω :=
  match parseU64 arg with
  | none => .error .notInteger
  | some n => .ok (f n)

end parsers

/-! ## The commands -/

/-- A 64-bit integer, if it is one. -/
def int64? (n : Int) : Option Int64 :=
  if n > 2 ^ 63 - 1 ∨ n < -2 ^ 63 then none else some (.ofInt n)

/-- Add to a counter. -/
def Update.up (delta : Int64) : Update :=
  .count (some delta) fun current => int64? (current.toInt + delta.toInt)

/-- Subtract from a counter. -/
def Update.down (delta : Int64) : Update :=
  .count (int64? (0 - delta.toInt)) fun current => int64? (current.toInt - delta.toInt)

theorem pushFront_ne_nil {values : List Bytes} (h : values ≠ []) (list : List Bytes) :
    (Store.pushFront values list).2 ≠ [] := by
  show values.foldl (fun list value => value :: list) list ≠ []
  induction values generalizing list with
  | nil => exact absurd rfl h
  | cons value rest ih =>
    cases rest with
    | nil => exact List.cons_ne_nil value list
    | cons value' rest => exact ih (List.cons_ne_nil value' rest) _

theorem pushBack_ne_nil {values : List Bytes} (h : values ≠ []) (list : List Bytes) :
    (Store.pushBack values list).2 ≠ [] := by
  show values.foldl (fun list value => list ++ [value]) list ≠ []
  induction values generalizing list with
  | nil => exact absurd rfl h
  | cons value rest ih =>
    cases rest with
    | nil => simp
    | cons value' rest => exact ih (List.cons_ne_nil value' rest) _

theorem pairs_ne_nil {args : List Bytes} (h : 2 ≤ args.length) : pairs args ≠ [] := by
  match args, h with
  | first :: second :: rest, _ => exact List.cons_ne_nil _ _

/-- `LPUSH` -/
def Update.lpush (values : List Bytes) (h : values ≠ []) : Update :=
  .add listValue [] (Store.pushFront values) (pushFront_ne_nil h)

/-- `RPUSH` -/
def Update.rpush (values : List Bytes) (h : values ≠ []) : Update :=
  .add listValue [] (Store.pushBack values) (pushBack_ne_nil h)

/-- `SADD` -/
def Update.sadd (members : List Bytes) (h : members ≠ []) : Update :=
  .add setValue FlatMap.empty (FlatMap.insertAll (members.map fun member => (member, ())))
    (FlatMap.insertAll_isEmpty (by simpa using h))

/-- `HSET` -/
def Update.hset (args : List Bytes) (h : 2 ≤ args.length) : Update :=
  .add hashValue FlatMap.empty (FlatMap.insertAll (pairs args))
    (FlatMap.insertAll_isEmpty (pairs_ne_nil h))

/-- A typed read for which a missing key counts as an empty collection, zero or
false. -/
def Look.orDefault {α β : Type} (T : ValueKind α) (default : β) (reply : β → Reply)
    (hreply : ∀ b, (reply b).isError = false) (f : α → β) : Look :=
  .typed T (reply default) (fun d => reply (f d)) (hreply default) fun d => hreply (f d)

theorem Reply.bulk?_isError (o : Option Bytes) : (Reply.bulk? o).isError = false := by
  cases o <;> rfl

/-- A typed read answered by a bulk string, or null. -/
def Look.bulk? {α : Type} (T : ValueKind α) (f : α → Option Bytes) : Look :=
  .orDefault T none .bulk? Reply.bulk?_isError f

/-- A typed read answered by an array of bulk strings. -/
def Look.strings {α : Type} (T : ValueKind α) (f : α → List Bytes) : Look :=
  .orDefault T [] .strings (fun _ => rfl) f

/-- A typed read answered by a count. -/
def Look.count {α : Type} (T : ValueKind α) (f : α → Nat) : Look :=
  .orDefault T 0 (fun n : Nat => .count n) (fun _ => rfl) f

/-- A typed read answered by a truth value. -/
def Look.truth {α : Type} (T : ValueKind α) (f : α → Bool) : Look :=
  .orDefault T false .truth (fun _ => rfl) f

/-- The remaining time to live of an entry in milliseconds. -/
def pttlOf (now : UInt64) : Option Entry → Int64
  | none => -2
  | some e =>
    if e.expiresAtMs = 0 then -1
    else if e.expiresAtMs ≤ now then -2
    else (e.expiresAtMs - now).toInt64

/-- The remaining time to live of an entry in whole seconds, rounded up. The sum wraps as in
`Store.ttl`. -/
def ttlOf (now : UInt64) (o : Option Entry) : Int64 :=
  let remaining := pttlOf now o
  if remaining ≤ 0 then remaining else (remaining + 999) / 1000

theorem ValueType.noCrlf_name (T : ValueType) : NoCrlf T.name := by
  cases T <;> decide

/-- The `TYPE` of an entry. -/
def typeReply : Option Entry → Reply
  | none => .simple (ascii "none") (by decide)
  | some e => .simple e.value.type.name e.value.type.noCrlf_name

/-- An algebraic operation on sets: an error as soon as one of the entries is
not a set. -/
def algebra (f : List (Option Entry) → List Bytes) (os : List (Option Entry)) : Reply :=
  if os.any (fun o => o.any fun e => e.value.type ≠ .set) then .wrongType
  else .strings (f os)

namespace Spec

/-- `APPEND key suffix` -/
def append : Spec := .update fun _ => oneArg fun suffix => .ok (.append suffix)

/-- `DBSIZE` -/
def dbsize : Spec := .survey fun
  | [] => .ok fun m => .count m.size
  | _ => .error .wrongArity

/-- `DECR key` -/
def decr : Spec := .update fun _ => noArgs (.down 1)

/-- `DECRBY key delta` -/
def decrby : Spec := .update fun _ => oneArg (signed .down)

/-- `DEL key ...` -/
def del : Spec := .delete

/-- `ECHO text` -/
def echo : Spec := .talk fun
  | [text] => .bulk text
  | _ => .wrongArity

/-- `EXISTS key ...` -/
def «exists» : Spec := .gather fun os => .count (os.countP Option.isSome)

/-- `EXPIRE key seconds` -/
def expire : Spec := .update fun now => oneArg (unsigned fun s => .expire (now + s * 1000))

/-- `FLUSHDB` -/
def flushdb : Spec := .flush

/-- `GET key` -/
def get : Spec := .look fun _ => noArgs (.bulk? stringValue some)

/-- `GETSET key value` -/
def getset : Spec := .update fun _ => oneArg fun value => .ok (.getset value)

/-- `HDEL key field ...` -/
def hdel : Spec :=
  .update fun _ => someArgs fun fields _ => .remove hashValue fields fun _ h => h

/-- `HEXISTS key field` -/
def hexists : Spec := .look fun _ => oneArg fun field =>
  .ok (.truth hashValue fun data => data.contains field)

/-- `HGET key field` -/
def hget : Spec := .look fun _ => oneArg fun field =>
  .ok (.bulk? hashValue fun data => data.find? field)

/-- `HGETALL key` -/
def hgetall : Spec := .look fun _ => noArgs
  (.strings hashValue fun data => data.entries.flatMap fun e => [e.1, e.2])

/-- `HKEYS key` -/
def hkeys : Spec := .look fun _ => noArgs (.strings hashValue FlatMap.keys)

/-- `HLEN key` -/
def hlen : Spec := .look fun _ => noArgs (.count hashValue FlatMap.size)

/-- `HSET key (field value) ...` -/
def hset : Spec := .update fun _ args =>
  if h : 2 ≤ args.length ∧ args.length % 2 = 0 then .ok (.hset args h.1)
  else .error .wrongArity

/-- `HVALS key` -/
def hvals : Spec := .look fun _ => noArgs (.strings hashValue FlatMap.values)

/-- `INCR key` -/
def incr : Spec := .update fun _ => noArgs (.up 1)

/-- `INCRBY key delta` -/
def incrby : Spec := .update fun _ => oneArg (signed .up)

/-- `KEYS pattern` -/
def keys : Spec := .survey fun
  | [pattern] => .ok fun m => .strings (m.keys.filter (globMatch pattern))
  | _ => .error .wrongArity

/-- `LINDEX key index` -/
def lindex : Spec := .look fun _ => oneArg (signed fun index =>
  .bulk? listValue fun data => element data index)

/-- `LLEN key` -/
def llen : Spec := .look fun _ => noArgs (.count listValue List.length)

/-- `LPOP key` -/
def lpop : Spec := .update fun _ => noArgs (.pop Store.popFront)

/-- `LPUSH key value ...` -/
def lpush : Spec := .update fun _ => someArgs .lpush

/-- `LRANGE key start stop` -/
def lrange : Spec := .look fun _ => twoArgs fun start stop =>
  match parseI64 start, parseI64 stop with
  | some start, some stop => .ok (.strings listValue fun data => slice data start stop)
  | _, _ => .error .notInteger

/-- `MGET key ...` -/
def mget : Spec := .gather fun os => .array (os.map Store.stringOf)

/-- `MSET (key value) ...` -/
def mset : Spec := .assign

/-- `PERSIST key` -/
def persist : Spec := .update fun _ => noArgs .persist

/-- `PEXPIRE key ms` -/
def pexpire : Spec := .update fun now => oneArg (unsigned fun ms => .expire (now + ms))

/-- `PING [text]` -/
def ping : Spec := .talk fun
  | [] => .simple (ascii "PONG") (by decide)
  | [text] => .bulk text
  | _ => .wrongArity

/-- `PTTL key` -/
def pttl : Spec := .look fun now => noArgs (.untyped fun o => .integer (pttlOf now o))

/-- `RENAME src dst` -/
def rename : Spec := .move

/-- `RPOP key` -/
def rpop : Spec := .update fun _ => noArgs (.pop Store.popBack)

/-- `RPUSH key value ...` -/
def rpush : Spec := .update fun _ => someArgs .rpush

/-- `SADD key member ...` -/
def sadd : Spec := .update fun _ => someArgs .sadd

/-- `SCARD key` -/
def scard : Spec := .look fun _ => noArgs (.count setValue FlatMap.size)

/-- `SET key value option ...` -/
def set : Spec := .update fun now args =>
  match args with
  | [] => .error .wrongArity
  | value :: options =>
    match setOptions now options {} with
    | .error .malformed => .error .syntaxError
    | .error .notInteger => .error .notInteger
    | .ok opts => .ok (.set value opts)

/-- `SINTER key ...` -/
def sinter : Spec := .gather (algebra fun os => Store.interLoop os none)

/-- `SISMEMBER key member` -/
def sismember : Spec := .look fun _ => oneArg fun member =>
  .ok (.truth setValue fun data => data.contains member)

/-- `SMEMBERS key` -/
def smembers : Spec := .look fun _ => noArgs (.strings setValue FlatMap.keys)

/-- `SREM key member ...` -/
def srem : Spec :=
  .update fun _ => someArgs fun members _ => .remove setValue members fun _ h => h

/-- `STRLEN key` -/
def strlen : Spec := .look fun _ => noArgs (.count stringValue List.length)

/-- `SUNION key ...` -/
def sunion : Spec := .gather (algebra fun os => Store.unionLoop os FlatMap.empty)

/-- `TTL key` -/
def ttl : Spec := .look fun now => noArgs (.untyped fun o => .integer (ttlOf now o))

/-- `TYPE key` -/
def type : Spec := .look fun _ => noArgs (.untyped typeReply)

end Spec

/-- The table of commands. -/
def specTable : List (Bytes × Spec) := [
  (ascii "APPEND", .append),
  (ascii "DBSIZE", .dbsize),
  (ascii "DECR", .decr),
  (ascii "DECRBY", .decrby),
  (ascii "DEL", .del),
  (ascii "ECHO", .echo),
  (ascii "EXISTS", .«exists»),
  (ascii "EXPIRE", .expire),
  (ascii "FLUSHDB", .flushdb),
  (ascii "GET", .get),
  (ascii "GETSET", .getset),
  (ascii "HDEL", .hdel),
  (ascii "HEXISTS", .hexists),
  (ascii "HGET", .hget),
  (ascii "HGETALL", .hgetall),
  (ascii "HKEYS", .hkeys),
  (ascii "HLEN", .hlen),
  (ascii "HSET", .hset),
  (ascii "HVALS", .hvals),
  (ascii "INCR", .incr),
  (ascii "INCRBY", .incrby),
  (ascii "KEYS", .keys),
  (ascii "LINDEX", .lindex),
  (ascii "LLEN", .llen),
  (ascii "LPOP", .lpop),
  (ascii "LPUSH", .lpush),
  (ascii "LRANGE", .lrange),
  (ascii "MGET", .mget),
  (ascii "MSET", .mset),
  (ascii "PERSIST", .persist),
  (ascii "PEXPIRE", .pexpire),
  (ascii "PING", .ping),
  (ascii "PTTL", .pttl),
  (ascii "RENAME", .rename),
  (ascii "RPOP", .rpop),
  (ascii "RPUSH", .rpush),
  (ascii "SADD", .sadd),
  (ascii "SCARD", .scard),
  (ascii "SET", .set),
  (ascii "SINTER", .sinter),
  (ascii "SISMEMBER", .sismember),
  (ascii "SMEMBERS", .smembers),
  (ascii "SREM", .srem),
  (ascii "STRLEN", .strlen),
  (ascii "SUNION", .sunion),
  (ascii "TTL", .ttl),
  (ascii "TYPE", .type)]

end Redix
