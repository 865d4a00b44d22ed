import Redix.Resp.Basic
import Redix.Store.Operations

/-!
# Commands (command.cpp)

From a parsed message to a command, and from a command to its reply and its
effect on the store. A handler checks the shape of the argument list, runs one
store operation, and renders the result; the forms most handlers end in are
`replyOr` (an error other than a missing key is passed on) and `replyCount` (the
`-1` sentinel of the collection writers).

Conventions:

- a handler takes the clock reading under which the command runs and returns
  the reply and the store after it. All clock readings within one command agree;
- `ServerContext` is left out: every handler ignores it;
- arguments are read as `args[i]` with the bound in scope, so that an access out
  of range cannot be written down.
-/

namespace Redix

/-! ## Commands and their parsing -/

/-- `Command` -/
structure Command where
  name : Bytes
  args : List Bytes
deriving DecidableEq

/-- `uppercase`, in the C locale. -/
def uppercase (s : Bytes) : Bytes :=
  s.map fun c => if 97 ≤ c ∧ c ≤ 122 then c - 32 else c

/-- `std::get_if<std::string>` on an element: bulk and simple strings. -/
def stringElem : RespValue → Option Bytes
  | .string text => some text
  | _ => none

/-- The elements as strings, if all of them are. -/
def stringElems : List RespValue → Option (List Bytes)
  | [] => some []
  | elem :: rest =>
    match stringElem elem, stringElems rest with
    | some text, some texts => some (text :: texts)
    | _, _ => none

/-- `parse_command`: the command, or the error reply. -/
def parseCommand : RespValue → Except Bytes Command
  | .array elems =>
    if elems = [] then .error (respError (ascii "ERR Protocol error: expected command"))
    else
      match stringElems elems with
      | some (name :: args) =>
        -- the name alone is folded to upper case
        if uppercase name = [] then
          .error (respError (ascii "ERR Protocol error: empty command"))
        else .ok ⟨uppercase name, args⟩
      | _ => .error (respError (ascii "ERR Protocol error: expected bulk string"))
  | _ => .error (respError (ascii "ERR Protocol error: expected array"))

/-! ## Replies -/

/-- `wrong_arity` -/
def wrongArity : Bytes := respError (ascii "wrong number of arguments")

/-- `syntax_error` -/
def syntaxError : Bytes := respError (ascii "ERR syntax error")

/-- `integer_error` -/
def integerError : Bytes :=
  respError (ascii "ERR value is not an integer or out of range")

/-- `simple_string` -/
def simpleString (value : Bytes) : Bytes := ascii "+" ++ value ++ crlf

/-- `store_error` -/
def storeError (error : StoreError) : Bytes := respError error.message

/-- `wrong_type_error` -/
def wrongTypeError : Bytes :=
  respError (ascii "WRONGTYPE Operation against a key holding the wrong kind of value")

/-- `string_array` -/
def stringArray (values : List Bytes) : Bytes :=
  respArray (values.map .string)

/-- `optional_string_array` -/
def optionalStringArray (values : List (Option Bytes)) : Bytes :=
  respArray (values.map fun
    | some value => .string value
    | none => .null)

/-- `is_key_not_found` -/
def isKeyNotFound (error : StoreError) : Bool := error.kind = .keyNotFound

/-- `is_out_of_range` -/
def isOutOfRange (error : StoreError) : Bool := error.kind = .outOfRange

/-- `resp_integer` of a count. -/
def respCount (n : Int) : Bytes := respInteger (.ofInt n)

/-- `resp_integer` of a truth value, `1` or `0`. -/
def respBool (b : Bool) : Bytes := respInteger (if b then 1 else 0)

/-- A result rendered by `render`, or the store's error. -/
def replyResult {α : Type} (render : α → Bytes) : Except StoreError α → Bytes
  | .ok value => render value
  | .error error => storeError error

/-- A result rendered by `render`, `missing` for a missing key, or the store's
error. -/
def replyOr {α : Type} (missing : Bytes) (render : α → Bytes) :
    Except StoreError α → Bytes
  | .ok value => render value
  | .error error => if isKeyNotFound error then missing else storeError error

/-- The reply to a collection writer's count, negative for a wrong type. -/
def replyCount (n : Int) : Bytes := if n < 0 then wrongTypeError else respCount n

/-! ## Handlers -/

/-- `Handler`: the reply and the store after it. -/
abbrev Handler := UInt64 → Command → Store → Bytes × Store

/-- `exact` -/
abbrev Command.exact (cmd : Command) (n : Nat) : Prop := cmd.args.length = n

/-- `at_least` -/
abbrev Command.atLeast (cmd : Command) (n : Nat) : Prop := cmd.args.length ≥ n

/-- `tail_args` -/
def Command.tailArgs (cmd : Command) (offset : Nat) : List Bytes := cmd.args.drop offset

/-- `key_is_wrong_type_for_set_op` -/
def keyIsWrongTypeForSetOp (now : UInt64) (store : Store) (key : Bytes) : Bool :=
  store.type now key ≠ ascii "none" && store.type now key ≠ ascii "set"

/-- What the option loop of `handle_set` accumulates. -/
structure SetOptions where
  expiresAt : UInt64 := 0
  nx : Bool := false
  xx : Bool := false
deriving DecidableEq

/-- Why the option loop of `handle_set` returns early. -/
inductive OptionError where
  | malformed
  | notInteger
deriving DecidableEq

/-- The reply it returns with. -/
def OptionError.reply : OptionError → Bytes
  | malformed => syntaxError
  | notInteger => integerError

/-- The option loop of `handle_set`. `EX` and `PX` take the next argument with
them; their sum and product may wrap. -/
def setOptions (now : UInt64) : List Bytes → SetOptions → Except OptionError SetOptions
  | [], opts => .ok opts
  | arg :: rest, opts =>
    let option := uppercase arg
    if option = ascii "EX" ∨ option = ascii "PX" then
      match rest with
      | [] => .error .malformed
      | arg :: rest =>
        match parseU64 arg with
        | none => .error .notInteger
        | some amount =>
          if amount = 0 then .error .notInteger
          else
            let ms := if option = ascii "EX" then amount * 1000 else amount
            setOptions now rest { opts with expiresAt := now + ms }
    else if option = ascii "NX" then
      if opts.xx then .error .malformed else setOptions now rest { opts with nx := true }
    else if option = ascii "XX" then
      if opts.nx then .error .malformed else setOptions now rest { opts with xx := true }
    else .error .malformed

/-- `handle_set` -/
def handleSet : Handler := fun now cmd store =>
  if h : cmd.atLeast 2 then
    match setOptions now (cmd.args.drop 2) {} with
    | .error error => (error.reply, store)
    | .ok opts =>
      -- NX and XX look at the key before it is written
      let present : Bool := store.exists now [cmd.args[0]] > 0
      if (opts.nx && present) || (opts.xx && !present) then (respNullBulk, store)
      else (respOk, store.set cmd.args[0] cmd.args[1] opts.expiresAt)
  else (wrongArity, store)

/-- `handle_get` -/
def handleGet : Handler := fun now cmd store =>
  if h : cmd.exact 1 then
    (replyOr respNullBulk respBulk (store.get now cmd.args[0]), store)
  else (wrongArity, store)

/-- `handle_del` -/
def handleDel : Handler := fun now cmd store =>
  if cmd.atLeast 1 then
    let (removed, store) := store.del now cmd.args
    (respCount removed, store)
  else (wrongArity, store)

/-- `handle_exists` -/
def handleExists : Handler := fun now cmd store =>
  if cmd.atLeast 1 then (respCount (store.exists now cmd.args), store)
  else (wrongArity, store)

/-- `handle_incr` -/
def handleIncr : Handler := fun now cmd store =>
  if h : cmd.exact 1 then
    let (n, store) := store.incr now cmd.args[0]
    (replyResult respInteger n, store)
  else (wrongArity, store)

/-- `handle_incrby` -/
def handleIncrby : Handler := fun now cmd store =>
  if h : cmd.exact 2 then
    match parseI64 cmd.args[1] with
    | some delta =>
      let (n, store) := store.incrby now cmd.args[0] delta
      (replyResult respInteger n, store)
    | none => (integerError, store)
  else (wrongArity, store)

/-- `handle_decr` -/
def handleDecr : Handler := fun now cmd store =>
  if h : cmd.exact 1 then
    let (n, store) := store.decr now cmd.args[0]
    (replyResult respInteger n, store)
  else (wrongArity, store)

/-- `handle_decrby` -/
def handleDecrby : Handler := fun now cmd store =>
  if h : cmd.exact 2 then
    match parseI64 cmd.args[1] with
    | some delta =>
      let (n, store) := store.decrby now cmd.args[0] delta
      (replyResult respInteger n, store)
    | none => (integerError, store)
  else (wrongArity, store)

/-- `handle_append` -/
def handleAppend : Handler := fun now cmd store =>
  if h : cmd.exact 2 then
    let (n, store) := store.append now cmd.args[0] cmd.args[1]
    (replyResult respCount n, store)
  else (wrongArity, store)

/-- `handle_strlen` -/
def handleStrlen : Handler := fun now cmd store =>
  if h : cmd.exact 1 then
    (replyResult respCount (store.strlen now cmd.args[0]), store)
  else (wrongArity, store)

/-- `handle_getset` -/
def handleGetset : Handler := fun now cmd store =>
  if h : cmd.exact 2 then
    let (old, store) := store.getset now cmd.args[0] cmd.args[1]
    (replyOr respNullBulk respBulk old, store)
  else (wrongArity, store)

/-- The pairing loops of `handle_mset` and `handle_hset`. -/
def pairs : List Bytes → List (Bytes × Bytes)
  | first :: second :: rest => (first, second) :: pairs rest
  | _ => []

/-- `handle_mset` -/
def handleMset : Handler := fun _ cmd store =>
  if cmd.args.length < 2 ∨ cmd.args.length % 2 ≠ 0 then (wrongArity, store)
  else (respOk, store.mset (pairs cmd.args))

/-- `handle_mget` -/
def handleMget : Handler := fun now cmd store =>
  if cmd.atLeast 1 then (optionalStringArray (store.mget now cmd.args), store)
  else (wrongArity, store)

/-- `handle_expire` -/
def handleExpire : Handler := fun now cmd store =>
  if h : cmd.exact 2 then
    match parseU64 cmd.args[1] with
    | none => (integerError, store)
    | some amount =>
      let (set, store) := store.expire now cmd.args[0] amount
      (respBool set, store)
  else (wrongArity, store)

/-- `handle_pexpire` -/
def handlePexpire : Handler := fun now cmd store =>
  if h : cmd.exact 2 then
    match parseU64 cmd.args[1] with
    | none => (integerError, store)
    | some amount =>
      let (set, store) := store.pexpire now cmd.args[0] amount
      (respBool set, store)
  else (wrongArity, store)

/-- `handle_ttl` -/
def handleTtl : Handler := fun now cmd store =>
  if h : cmd.exact 1 then (respInteger (store.ttl now cmd.args[0]), store)
  else (wrongArity, store)

/-- `handle_pttl` -/
def handlePttl : Handler := fun now cmd store =>
  if h : cmd.exact 1 then (respInteger (store.pttl now cmd.args[0]), store)
  else (wrongArity, store)

/-- `handle_persist` -/
def handlePersist : Handler := fun now cmd store =>
  if h : cmd.exact 1 then
    let (cleared, store) := store.persist now cmd.args[0]
    (respBool cleared, store)
  else (wrongArity, store)

/-- `handle_lpush` -/
def handleLpush : Handler := fun now cmd store =>
  if h : cmd.atLeast 2 then
    let (len, store) := store.lpush now cmd.args[0] (cmd.tailArgs 1)
    (replyCount len, store)
  else (wrongArity, store)

/-- `handle_rpush` -/
def handleRpush : Handler := fun now cmd store =>
  if h : cmd.atLeast 2 then
    let (len, store) := store.rpush now cmd.args[0] (cmd.tailArgs 1)
    (replyCount len, store)
  else (wrongArity, store)

/-- `handle_lpop` -/
def handleLpop : Handler := fun now cmd store =>
  if h : cmd.exact 1 then
    let (value, store) := store.lpop now cmd.args[0]
    (replyOr respNullBulk respBulk value, store)
  else (wrongArity, store)

/-- `handle_rpop` -/
def handleRpop : Handler := fun now cmd store =>
  if h : cmd.exact 1 then
    let (value, store) := store.rpop now cmd.args[0]
    (replyOr respNullBulk respBulk value, store)
  else (wrongArity, store)

/-- `handle_lrange` -/
def handleLrange : Handler := fun now cmd store =>
  if h : cmd.exact 3 then
    match parseI64 cmd.args[1], parseI64 cmd.args[2] with
    | some start, some stop =>
      (replyOr (stringArray []) stringArray (store.lrange now cmd.args[0] start stop), store)
    | _, _ => (integerError, store)
  else (wrongArity, store)

/-- `handle_llen` -/
def handleLlen : Handler := fun now cmd store =>
  if h : cmd.exact 1 then
    (replyOr (respInteger 0) respCount (store.llen now cmd.args[0]), store)
  else (wrongArity, store)

/-- The reply to the result of `lindex`: an index out of range is answered like a
missing key. -/
def replyElement : Except StoreError Bytes → Bytes
  | .ok value => respBulk value
  | .error error =>
    if isKeyNotFound error || isOutOfRange error then respNullBulk else storeError error

/-- `handle_lindex` -/
def handleLindex : Handler := fun now cmd store =>
  if h : cmd.exact 2 then
    match parseI64 cmd.args[1] with
    | none => (integerError, store)
    | some index => (replyElement (store.lindex now cmd.args[0] index), store)
  else (wrongArity, store)

/-- `handle_hset` -/
def handleHset : Handler := fun now cmd store =>
  if h : cmd.args.length < 3 ∨ cmd.args.length % 2 = 0 then (wrongArity, store)
  else
    let (added, store) := store.hset now cmd.args[0] (pairs (cmd.args.drop 1))
    (replyCount added, store)

/-- `handle_hget` -/
def handleHget : Handler := fun now cmd store =>
  if h : cmd.exact 2 then
    (replyOr respNullBulk respBulk (store.hget now cmd.args[0] cmd.args[1]), store)
  else (wrongArity, store)

/-- `handle_hdel` -/
def handleHdel : Handler := fun now cmd store =>
  if h : cmd.atLeast 2 then
    let (removed, store) := store.hdel now cmd.args[0] (cmd.tailArgs 1)
    (replyCount removed, store)
  else (wrongArity, store)

/-- `handle_hgetall` -/
def handleHgetall : Handler := fun now cmd store =>
  if h : cmd.exact 1 then
    (replyOr (stringArray []) stringArray (store.hgetall now cmd.args[0]), store)
  else (wrongArity, store)

/-- `handle_hexists` -/
def handleHexists : Handler := fun now cmd store =>
  if h : cmd.exact 2 then
    (replyOr (respInteger 0) respBool (store.hexists now cmd.args[0] cmd.args[1]), store)
  else (wrongArity, store)

/-- `handle_hlen` -/
def handleHlen : Handler := fun now cmd store =>
  if h : cmd.exact 1 then
    (replyOr (respInteger 0) respCount (store.hlen now cmd.args[0]), store)
  else (wrongArity, store)

/-- `handle_hkeys` -/
def handleHkeys : Handler := fun now cmd store =>
  if h : cmd.exact 1 then
    (replyOr (stringArray []) stringArray (store.hkeys now cmd.args[0]), store)
  else (wrongArity, store)

/-- `handle_hvals` -/
def handleHvals : Handler := fun now cmd store =>
  if h : cmd.exact 1 then
    (replyOr (stringArray []) stringArray (store.hvals now cmd.args[0]), store)
  else (wrongArity, store)

/-- `handle_sadd` -/
def handleSadd : Handler := fun now cmd store =>
  if h : cmd.atLeast 2 then
    let (added, store) := store.sadd now cmd.args[0] (cmd.tailArgs 1)
    (replyCount added, store)
  else (wrongArity, store)

/-- `handle_srem` -/
def handleSrem : Handler := fun now cmd store =>
  if h : cmd.atLeast 2 then
    let (removed, store) := store.srem now cmd.args[0] (cmd.tailArgs 1)
    (replyCount removed, store)
  else (wrongArity, store)

/-- `handle_smembers` -/
def handleSmembers : Handler := fun now cmd store =>
  if h : cmd.exact 1 then
    (replyOr (stringArray []) stringArray (store.smembers now cmd.args[0]), store)
  else (wrongArity, store)

/-- `handle_sismember` -/
def handleSismember : Handler := fun now cmd store =>
  if h : cmd.exact 2 then
    (replyOr (respInteger 0) respBool (store.sismember now cmd.args[0] cmd.args[1]), store)
  else (wrongArity, store)

/-- `handle_scard` -/
def handleScard : Handler := fun now cmd store =>
  if h : cmd.exact 1 then
    (replyOr (respInteger 0) respCount (store.scard now cmd.args[0]), store)
  else (wrongArity, store)

/-- `handle_sunion` -/
def handleSunion : Handler := fun now cmd store =>
  if cmd.atLeast 1 then
    if cmd.args.any (keyIsWrongTypeForSetOp now store) then (wrongTypeError, store)
    else (stringArray (store.sunion now cmd.args), store)
  else (wrongArity, store)

/-- `handle_sinter` -/
def handleSinter : Handler := fun now cmd store =>
  if cmd.atLeast 1 then
    if cmd.args.any (keyIsWrongTypeForSetOp now store) then (wrongTypeError, store)
    else (stringArray (store.sinter now cmd.args), store)
  else (wrongArity, store)

/-- `handle_ping` -/
def handlePing : Handler := fun _ cmd store =>
  if cmd.args = [] then (simpleString (ascii "PONG"), store)
  else if h : cmd.exact 1 then (respBulk cmd.args[0], store)
  else (wrongArity, store)

/-- `handle_echo` -/
def handleEcho : Handler := fun _ cmd store =>
  if h : cmd.exact 1 then (respBulk cmd.args[0], store)
  else (wrongArity, store)

/-- `handle_dbsize` -/
def handleDbsize : Handler := fun now cmd store =>
  if cmd.args = [] then (respCount (store.dbsize now), store)
  else (wrongArity, store)

/-- `handle_flushdb` -/
def handleFlushdb : Handler := fun _ cmd store =>
  if cmd.args = [] then (respOk, store.flushdb)
  else (wrongArity, store)

/-- `handle_keys` -/
def handleKeys : Handler := fun now cmd store =>
  if h : cmd.exact 1 then (stringArray (store.keys now cmd.args[0]), store)
  else (wrongArity, store)

/-- `handle_type` -/
def handleType : Handler := fun now cmd store =>
  if h : cmd.exact 1 then (simpleString (store.type now cmd.args[0]), store)
  else (wrongArity, store)

/-- `handle_rename` -/
def handleRename : Handler := fun now cmd store =>
  if h : cmd.exact 2 then
    let (renamed, store) := store.rename now cmd.args[0] cmd.args[1]
    (if renamed then respOk else respError (ascii "ERR no such key"), store)
  else (wrongArity, store)

/-! ## Dispatch -/

/-- `DISPATCH_TABLE` -/
def dispatchTable : List (Bytes × Handler) := [
  (ascii "APPEND", handleAppend),
  (ascii "DBSIZE", handleDbsize),
  (ascii "DECR", handleDecr),
  (ascii "DECRBY", handleDecrby),
  (ascii "DEL", handleDel),
  (ascii "ECHO", handleEcho),
  (ascii "EXISTS", handleExists),
  (ascii "EXPIRE", handleExpire),
  (ascii "FLUSHDB", handleFlushdb),
  (ascii "GET", handleGet),
  (ascii "GETSET", handleGetset),
  (ascii "HDEL", handleHdel),
  (ascii "HEXISTS", handleHexists),
  (ascii "HGET", handleHget),
  (ascii "HGETALL", handleHgetall),
  (ascii "HKEYS", handleHkeys),
  (ascii "HLEN", handleHlen),
  (ascii "HSET", handleHset),
  (ascii "HVALS", handleHvals),
  (ascii "INCR", handleIncr),
  (ascii "INCRBY", handleIncrby),
  (ascii "KEYS", handleKeys),
  (ascii "LINDEX", handleLindex),
  (ascii "LLEN", handleLlen),
  (ascii "LPOP", handleLpop),
  (ascii "LPUSH", handleLpush),
  (ascii "LRANGE", handleLrange),
  (ascii "MGET", handleMget),
  (ascii "MSET", handleMset),
  (ascii "PERSIST", handlePersist),
  (ascii "PEXPIRE", handlePexpire),
  (ascii "PING", handlePing),
  (ascii "PTTL", handlePttl),
  (ascii "RENAME", handleRename),
  (ascii "RPOP", handleRpop),
  (ascii "RPUSH", handleRpush),
  (ascii "SADD", handleSadd),
  (ascii "SCARD", handleScard),
  (ascii "SET", handleSet),
  (ascii "SINTER", handleSinter),
  (ascii "SISMEMBER", handleSismember),
  (ascii "SMEMBERS", handleSmembers),
  (ascii "SREM", handleSrem),
  (ascii "STRLEN", handleStrlen),
  (ascii "SUNION", handleSunion),
  (ascii "TTL", handleTtl),
  (ascii "TYPE", handleType)]

/-- The reply to a name that is not in the table; the name is copied as it is. -/
def unknownCommand (name : Bytes) : Bytes :=
  respError (ascii "ERR unknown command '" ++ name ++ ascii "'")

/-- `dispatch` -/
def dispatch : Handler := fun now cmd store =>
  match dispatchTable.lookup cmd.name with
  | none => (unknownCommand cmd.name, store)
  | some handler => handler now cmd store

/-- The names listed in `is_write_command`. -/
def writeCommands : List Bytes :=
  ["SET", "DEL", "INCR", "INCRBY", "DECR", "DECRBY", "APPEND", "GETSET", "MSET",
    "EXPIRE", "PEXPIRE", "PERSIST", "LPUSH", "RPUSH", "LPOP", "RPOP", "HSET", "HDEL",
    "SADD", "SREM", "FLUSHDB", "RENAME"].map ascii

/-- `is_write_command` -/
def isWriteCommand (cmd : Command) : Bool := writeCommands.contains cmd.name

end Redix
