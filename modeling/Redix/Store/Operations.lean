import Redix.Store.Basic

/-!
# The store's operations (store.cpp)

One definition for each member function of `Store`. Where several members have
one text up to the container they work on, that text is a definition with
parameters and the members are its instances:

- `readAs`: the typed reads;
- `count`: `incrby` and `decrby`;
- `addTo`: `lpush`, `rpush`, `hset`, `sadd`, with `-1` for a wrong type;
- `removeFrom`: `hdel`, `srem`, with `-1` for a wrong type;
- `pop`: `lpop`, `rpop`.

A write through an iterator, `it->second.x = y`, is the insertion of the changed
entry under the same key.
-/

namespace Redix

/-! ## Indices into a list -/

/-- The elements `lrange` collects: the end points are counted from the back when
negative and then cut to the list. -/
def slice (data : List Bytes) (start stop : Int64) : List Bytes :=
  let size := Int64.ofNat data.length
  let first := normalizeIndex start size
  let last := normalizeIndex stop size
  let first := if first < 0 then 0 else first
  let last := if last ≥ size then size - 1 else last
  if size = 0 ∨ first > last ∨ first ≥ size ∨ last < 0 then []
  else (data.drop first.toInt.toNat).take (last - first + 1).toInt.toNat

/-- The element `lindex` returns, `none` for an index out of range. -/
def element (data : List Bytes) (index : Int64) : Option Bytes :=
  let size := Int64.ofNat data.length
  let normalized := normalizeIndex index size
  if normalized < 0 ∨ normalized ≥ size then none else data[normalized.toInt.toNat]?

namespace Store

variable {α β : Type}

/-! ## Typed reads -/

/-- The typed reads: a missing key and a value of another type are errors. -/
def readAs (T : ValueKind α) (s : Store) (now : UInt64) (key : Bytes)
    (f : α → Except StoreError β) : Except StoreError β :=
  match findLive now s.data key with
  | none => .error keyNotFound
  | some e =>
    match T.get? e.value with
    | none => .error wrongType
    | some data => f data

/-- `Store::get` -/
def get (s : Store) (now : UInt64) (key : Bytes) : Except StoreError Bytes :=
  s.readAs stringValue now key .ok

/-- `Store::strlen`: of the typed reads, the one for which a missing key is not
an error. -/
def strlen (s : Store) (now : UInt64) (key : Bytes) : Except StoreError Int :=
  match findLive now s.data key with
  | none => .ok 0
  | some e =>
    match stringValue.get? e.value with
    | none => .error wrongType
    | some data => .ok data.length

/-- `Store::lrange` -/
def lrange (s : Store) (now : UInt64) (key : Bytes) (start stop : Int64) :
    Except StoreError (List Bytes) :=
  s.readAs listValue now key fun data => .ok (slice data start stop)

/-- `Store::llen` -/
def llen (s : Store) (now : UInt64) (key : Bytes) : Except StoreError Int :=
  s.readAs listValue now key fun data => .ok data.length

/-- `Store::lindex` -/
def lindex (s : Store) (now : UInt64) (key : Bytes) (index : Int64) :
    Except StoreError Bytes :=
  s.readAs listValue now key fun data =>
    match element data index with
    | none => .error outOfRange
    | some value => .ok value

/-- `Store::hget` -/
def hget (s : Store) (now : UInt64) (key field : Bytes) : Except StoreError Bytes :=
  s.readAs hashValue now key fun data =>
    match data.find? field with
    | none => .error keyNotFound
    | some value => .ok value

/-- `Store::hgetall`: fields and values alternate. -/
def hgetall (s : Store) (now : UInt64) (key : Bytes) : Except StoreError (List Bytes) :=
  s.readAs hashValue now key fun data => .ok (data.entries.flatMap fun e => [e.1, e.2])

/-- `Store::hexists` -/
def hexists (s : Store) (now : UInt64) (key field : Bytes) : Except StoreError Bool :=
  s.readAs hashValue now key fun data => .ok (data.contains field)

/-- `Store::hlen` -/
def hlen (s : Store) (now : UInt64) (key : Bytes) : Except StoreError Int :=
  s.readAs hashValue now key fun data => .ok data.size

/-- `Store::hkeys` -/
def hkeys (s : Store) (now : UInt64) (key : Bytes) : Except StoreError (List Bytes) :=
  s.readAs hashValue now key fun data => .ok data.keys

/-- `Store::hvals` -/
def hvals (s : Store) (now : UInt64) (key : Bytes) : Except StoreError (List Bytes) :=
  s.readAs hashValue now key fun data => .ok data.values

/-- `Store::smembers` -/
def smembers (s : Store) (now : UInt64) (key : Bytes) : Except StoreError (List Bytes) :=
  s.readAs setValue now key fun data => .ok data.keys

/-- `Store::sismember` -/
def sismember (s : Store) (now : UInt64) (key member : Bytes) : Except StoreError Bool :=
  s.readAs setValue now key fun data => .ok (data.contains member)

/-- `Store::scard` -/
def scard (s : Store) (now : UInt64) (key : Bytes) : Except StoreError Int :=
  s.readAs setValue now key fun data => .ok data.size

/-! ## Untyped and multi-key reads -/

/-- `Store::exists`: a key listed twice counts twice. -/
def «exists» (s : Store) (now : UInt64) (keys : List Bytes) : Int :=
  (keys.map (findLive now s.data)).countP Option.isSome

/-- What `mget` reports for the entry found: no value for a missing key, nor for
one of another type. -/
def stringOf : Option Entry → Option Bytes
  | none => none
  | some e => stringValue.get? e.value

/-- `Store::mget` -/
def mget (s : Store) (now : UInt64) (keys : List Bytes) : List (Option Bytes) :=
  (keys.map (findLive now s.data)).map stringOf

/-- `Store::type` -/
def type (s : Store) (now : UInt64) (key : Bytes) : Bytes :=
  match findLive now s.data key with
  | none => ascii "none"
  | some e => e.value.type.name

/-- `Store::pttl`, which reads the clock twice: `now` in the liveness check and
`now'` for the remaining time. -/
def pttlAt (s : Store) (now now' : UInt64) (key : Bytes) : Int64 :=
  match findLive now s.data key with
  | none => -2
  | some e =>
    if e.expiresAtMs = 0 then -1
    else if e.expiresAtMs ≤ now' then -2
    else (e.expiresAtMs - now').toInt64

/-- `Store::pttl` within one millisecond. -/
def pttl (s : Store) (now : UInt64) (key : Bytes) : Int64 := s.pttlAt now now key

/-- `Store::ttl`: whole seconds, rounded up. For a deadline more than `2 ^ 63 - 1000` milliseconds
away the sum overflows, which C++ leaves undefined and which wraps here (`Store.ttlAt` has no
result there). -/
def ttl (s : Store) (now : UInt64) (key : Bytes) : Int64 :=
  let remaining := s.pttl now key
  if remaining ≤ 0 then remaining else (remaining + 999) / 1000

/-- The loop of `Store::sunion` over the entries found: missing ones and values
of another type are skipped. -/
def unionLoop : List (Option Entry) → FlatMap Bytes Unit → List Bytes
  | [], result => result.keys
  | none :: rest, result => unionLoop rest result
  | some e :: rest, result =>
    match setValue.get? e.value with
    | none => unionLoop rest result
    | some set =>
      unionLoop rest (set.keys.foldl (fun result member => result.insert member ()) result)

/-- `Store::sunion` -/
def sunion (s : Store) (now : UInt64) (keys : List Bytes) : List Bytes :=
  unionLoop (keys.map (findLive now s.data)) FlatMap.empty

/-- The loop of `Store::sinter` over the entries found; `result` is `none` until
the first set initializes it. -/
def interLoop : List (Option Entry) → Option (FlatMap Bytes Unit) → List Bytes
  | [], result => (result.getD FlatMap.empty).keys
  -- a missing key ends the loop, whatever comes after it
  | none :: _, _ => []
  | some e :: rest, result =>
    match setValue.get? e.value with
    | none => []
    | some set =>
      match result with
      | none => interLoop rest (some set)
      | some result =>
        let next := result.filter fun member _ => set.contains member
        if next.isEmpty then [] else interLoop rest (some next)

/-- `Store::sinter` -/
def sinter (s : Store) (now : UInt64) (keys : List Bytes) : List Bytes :=
  if keys = [] then [] else interLoop (keys.map (findLive now s.data)) none

/-- `Store::dbsize` -/
def dbsize (s : Store) (now : UInt64) : Nat :=
  s.data.entries.countP fun e => !e.2.isExpired now

/-- `Store::keys` -/
def keys (s : Store) (now : UInt64) (pattern : Bytes) : List Bytes :=
  (s.data.entries.filter fun e => !e.2.isExpired now && globMatch pattern e.1).map Prod.fst

/-! ## String writes -/

/-- `Store::set` -/
def set (s : Store) (key value : Bytes) (expiresAtMs : UInt64) : Store :=
  ⟨s.data.insert key ⟨.string value, expiresAtMs⟩⟩

/-- `Store::mset`: later pairs win. -/
def mset (s : Store) (pairs : List (Bytes × Bytes)) : Store :=
  ⟨pairs.foldl (fun data pair => data.insert pair.1 ⟨.string pair.2, 0⟩) s.data⟩

/-- `incrby` and `decrby`: `initial` for a missing key, `next` of the number
there. -/
def count (initial : Except StoreError Int64) (next : Int64 → Except StoreError Int64)
    (s : Store) (now : UInt64) (key : Bytes) : Except StoreError Int64 × Store :=
  match findLiveMut now s.data key with
  | (none, data) =>
    match initial with
    | .error err => (.error err, ⟨data⟩)
    | .ok n => (.ok n, ⟨data.insert key ⟨.string (Decimal.print n.toInt), 0⟩⟩)
  | (some e, data) =>
    match stringValue.get? e.value with
    | none => (.error wrongType, ⟨data⟩)
    | some text =>
      match parseI64 text with
      | none => (.error notInteger, ⟨data⟩)
      | some current =>
        match next current with
        | .error err => (.error err, ⟨data⟩)
        | .ok n =>
          (.ok n, ⟨data.insert key { e with value := .string (Decimal.print n.toInt) }⟩)

/-- `Store::incrby` -/
def incrby (s : Store) (now : UInt64) (key : Bytes) (delta : Int64) :
    Except StoreError Int64 × Store :=
  s.count (.ok delta) (fun current => checkedAdd current delta) now key

/-- `Store::incr` -/
def incr (s : Store) (now : UInt64) (key : Bytes) : Except StoreError Int64 × Store :=
  s.incrby now key 1

/-- `Store::decrby`: a missing key counts as `0`, so that negating the delta may
overflow. -/
def decrby (s : Store) (now : UInt64) (key : Bytes) (delta : Int64) :
    Except StoreError Int64 × Store :=
  s.count (checkedSubtract 0 delta) (fun current => checkedSubtract current delta) now key

/-- `Store::decr` -/
def decr (s : Store) (now : UInt64) (key : Bytes) : Except StoreError Int64 × Store :=
  s.decrby now key 1

/-- `Store::append` -/
def append (s : Store) (now : UInt64) (key suffix : Bytes) :
    Except StoreError Int × Store :=
  match findLiveMut now s.data key with
  | (none, data) => (.ok suffix.length, ⟨data.insert key ⟨.string suffix, 0⟩⟩)
  | (some e, data) =>
    match stringValue.get? e.value with
    | none => (.error wrongType, ⟨data⟩)
    | some text =>
      (.ok (text ++ suffix).length,
        ⟨data.insert key { e with value := .string (text ++ suffix) }⟩)

/-- `Store::getset` -/
def getset (s : Store) (now : UInt64) (key value : Bytes) :
    Except StoreError Bytes × Store :=
  match findLiveMut now s.data key with
  | (none, data) => (.error keyNotFound, ⟨data.insert key ⟨.string value, 0⟩⟩)
  | (some e, data) =>
    match stringValue.get? e.value with
    | none => (.error wrongType, ⟨data⟩)
    | some old => (.ok old, ⟨data.insert key ⟨.string value, 0⟩⟩)

/-! ## Keys and deadlines -/

/-- `Store::del` -/
def del (s : Store) (now : UInt64) : List Bytes → Int × Store
  | [] => (0, s)
  | key :: rest =>
    match findLiveMut now s.data key with
    | (none, data) => del ⟨data⟩ now rest
    | (some _, data) =>
      let (removed, s) := del ⟨data.erase key⟩ now rest
      (removed + 1, s)

/-- `Store::pexpire`; the sum may wrap. -/
def pexpire (s : Store) (now : UInt64) (key : Bytes) (ms : UInt64) : Bool × Store :=
  match findLiveMut now s.data key with
  | (none, data) => (false, ⟨data⟩)
  | (some e, data) => (true, ⟨data.insert key { e with expiresAtMs := now + ms }⟩)

/-- `Store::expire`; the product may wrap. -/
def expire (s : Store) (now : UInt64) (key : Bytes) (seconds : UInt64) : Bool × Store :=
  s.pexpire now key (seconds * 1000)

/-- `Store::persist` -/
def persist (s : Store) (now : UInt64) (key : Bytes) : Bool × Store :=
  match findLiveMut now s.data key with
  | (none, data) => (false, ⟨data⟩)
  | (some e, data) =>
    if e.expiresAtMs = 0 then (false, ⟨data⟩)
    else (true, ⟨data.insert key { e with expiresAtMs := 0 }⟩)

/-- `Store::rename` -/
def rename (s : Store) (now : UInt64) (src dst : Bytes) : Bool × Store :=
  match findLiveMut now s.data src with
  | (none, data) => (false, ⟨data⟩)
  | (some e, data) => (true, ⟨(data.erase src).insert dst e⟩)

/-- `Store::flushdb` -/
def flushdb (_ : Store) : Store := Store.empty

/-- The loop of `Store::sweep_expired` over the entries from the iterator on,
with a budget of entries to visit. -/
def sweepLoop (now : UInt64) : Nat → List (Bytes × Entry) → DataMap → DataMap
  | 0, _, data => data
  | _, [], data => data
  | visits + 1, e :: rest, data =>
    sweepLoop now visits rest (if e.2.isExpired now then data.erase e.1 else data)

/-- `Store::sweep_expired`: the first twenty entries are visited. -/
def sweepExpired (s : Store) (now : UInt64) : Store :=
  ⟨sweepLoop now 20 s.data.entries s.data⟩

/-! ## Writes to collections -/

/-- `lpush`, `rpush`, `hset` and `sadd`: add to a collection of type `T`, or to a
fresh one under a missing key. The count is `-1` for a value of another type. -/
def addTo (T : ValueKind α) (fresh : α) (add : α → Nat × α) (s : Store)
    (now : UInt64) (key : Bytes) : Int × Store :=
  match findLiveMut now s.data key with
  | (none, data) => ((add fresh).1, ⟨data.insert key ⟨T.wrap (add fresh).2, 0⟩⟩)
  | (some e, data) =>
    match T.get? e.value with
    | none => (-1, ⟨data⟩)
    | some d => ((add d).1, ⟨data.insert key { e with value := T.wrap (add d).2 }⟩)

/-- `push_front` of each value in turn, with the size afterwards. -/
def pushFront (values list : List Bytes) : Nat × List Bytes :=
  let list := values.foldl (fun list value => value :: list) list
  (list.length, list)

/-- `push_back` of each value in turn, with the size afterwards. -/
def pushBack (values list : List Bytes) : Nat × List Bytes :=
  let list := values.foldl (fun list value => list ++ [value]) list
  (list.length, list)

/-- `Store::lpush` -/
def lpush (s : Store) (now : UInt64) (key : Bytes) (values : List Bytes) : Int × Store :=
  s.addTo listValue [] (pushFront values) now key

/-- `Store::rpush` -/
def rpush (s : Store) (now : UInt64) (key : Bytes) (values : List Bytes) : Int × Store :=
  s.addTo listValue [] (pushBack values) now key

/-- `Store::hset`: the count is of fields that were new. -/
def hset (s : Store) (now : UInt64) (key : Bytes) (fvPairs : List (Bytes × Bytes)) :
    Int × Store :=
  s.addTo hashValue FlatMap.empty (FlatMap.insertAll fvPairs) now key

/-- `Store::sadd`: the count is of members that were new. -/
def sadd (s : Store) (now : UInt64) (key : Bytes) (members : List Bytes) : Int × Store :=
  s.addTo setValue FlatMap.empty
    (FlatMap.insertAll (members.map fun member => (member, ()))) now key

/-- `hdel` and `srem`: remove elements, and the key once nothing is left. The
count is `-1` for a value of another type. -/
def removeFrom {ν : Type} (T : ValueKind (FlatMap Bytes ν)) (elems : List Bytes)
    (s : Store) (now : UInt64) (key : Bytes) : Int × Store :=
  match findLiveMut now s.data key with
  | (none, data) => (0, ⟨data⟩)
  | (some e, data) =>
    match T.get? e.value with
    | none => (-1, ⟨data⟩)
    | some d =>
      let (removed, d) := FlatMap.eraseAll elems d
      if d.isEmpty then (removed, ⟨data.erase key⟩)
      else (removed, ⟨data.insert key { e with value := T.wrap d }⟩)

/-- `Store::hdel` -/
def hdel (s : Store) (now : UInt64) (key : Bytes) (fields : List Bytes) : Int × Store :=
  s.removeFrom hashValue fields now key

/-- `Store::srem` -/
def srem (s : Store) (now : UInt64) (key : Bytes) (members : List Bytes) : Int × Store :=
  s.removeFrom setValue members now key

/-- `lpop` and `rpop`: `take` splits an element off a non-empty list. The key
goes with the last element, and with an empty list, should there be one. -/
def pop (take : List Bytes → Option (Bytes × List Bytes)) (s : Store) (now : UInt64)
    (key : Bytes) : Except StoreError Bytes × Store :=
  match findLiveMut now s.data key with
  | (none, data) => (.error keyNotFound, ⟨data⟩)
  | (some e, data) =>
    match listValue.get? e.value with
    | none => (.error wrongType, ⟨data⟩)
    | some list =>
      match take list with
      | none => (.error keyNotFound, ⟨data.erase key⟩)
      | some (value, list) =>
        if list.isEmpty then (.ok value, ⟨data.erase key⟩)
        else (.ok value, ⟨data.insert key { e with value := .list list }⟩)

/-- `front` and `pop_front`. -/
def popFront : List Bytes → Option (Bytes × List Bytes)
  | [] => none
  | value :: rest => some (value, rest)

/-- `back` and `pop_back`. -/
def popBack (list : List Bytes) : Option (Bytes × List Bytes) :=
  match list.getLast? with
  | none => none
  | some value => some (value, list.dropLast)

/-- `Store::lpop` -/
def lpop (s : Store) (now : UInt64) (key : Bytes) : Except StoreError Bytes × Store :=
  s.pop popFront now key

/-- `Store::rpop` -/
def rpop (s : Store) (now : UInt64) (key : Bytes) : Except StoreError Bytes × Store :=
  s.pop popBack now key

end Store

end Redix
