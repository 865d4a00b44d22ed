import Redix.Base.Checked
import Redix.Command.Refinement
import Redix.Store.Bounds

/-!
# Arguments in range (command.cpp)

The handlers index `cmd.args` without a check, behind a test of how many arguments there are.
Here each handler is repeated with every index checked, those into a list of the store as well: a
read out of range has no result, nor has a subtraction that would wrap. So each pairs its own test
with its own indices, and `dispatchInBounds_eq` says that every pair fits.

- the forms of argument list that most handlers have: `withOne`, `withTwo`, `withNumber`,
  `withTail`; each reads in range (`withOne_eq`, ...);
- the loops by index: `setOptionsInBounds` and `pairsInBounds`;
- `arguments_in_bounds`: dispatch of any command faults on no store, and the loops use the
  arguments as they should.
-/

namespace Redix

open Checked

/-- `Handler`, with every read checked. -/
abbrev HandlerInBounds := UInt64 → Command → Store → Option (Bytes × Store)

/-- A handler in which no read fails. -/
def inBounds (handler : Handler) : HandlerInBounds := fun now cmd store =>
  some (handler now cmd store)

/-! ## Forms of argument list -/

/-- One argument. -/
def withOne (f : UInt64 → Bytes → Store → Bytes × Store) : HandlerInBounds :=
  fun now cmd store =>
    if cmd.exact 1 then do
      let key ← cmd.args[0]?
      some (f now key store)
    else some (wrongArity, store)

/-- Two arguments. -/
def withTwo (f : UInt64 → Bytes → Bytes → Store → Bytes × Store) : HandlerInBounds :=
  fun now cmd store =>
    if cmd.exact 2 then do
      let key ← cmd.args[0]?
      let arg ← cmd.args[1]?
      some (f now key arg store)
    else some (wrongArity, store)

/-- A key and a number, which is read first. -/
def withNumber {α : Type} (parse : Bytes → Option α)
    (f : UInt64 → Bytes → α → Store → Bytes × Store) : HandlerInBounds :=
  fun now cmd store =>
    if cmd.exact 2 then do
      let text ← cmd.args[1]?
      match parse text with
      | none => some (integerError, store)
      | some number => do
        let key ← cmd.args[0]?
        some (f now key number store)
    else some (wrongArity, store)

/-- `tail_args`: the arguments behind `offset` of them, as many as are left. -/
def Command.tailArgsInBounds (cmd : Command) (offset : Nat) : Option (List Bytes) := do
  let count ← cmd.args.length.psub offset
  reads cmd.args offset count

/-- A key and one argument or more. -/
def withTail (f : UInt64 → Bytes → List Bytes → Store → Bytes × Store) : HandlerInBounds :=
  fun now cmd store =>
    if cmd.atLeast 2 then do
      let key ← cmd.args[0]?
      let rest ← cmd.tailArgsInBounds 1
      some (f now key rest store)
    else some (wrongArity, store)

/-! ## Loops by index -/

/-- The option loop of `handle_set` from `i` on. -/
def setOptionsInBounds (now : UInt64) (args : List Bytes) (i : Nat) (opts : SetOptions) :
    Option (Except OptionError SetOptions) :=
  if _h : i < args.length then do
    let arg ← args[i]?
    let option := uppercase arg
    if option = ascii "EX" ∨ option = ascii "PX" then
      if i + 1 ≥ args.length then some (.error .malformed)
      else do
        let arg ← args[i + 1]?
        match parseU64 arg with
        | none => some (.error .notInteger)
        | some amount =>
          if amount = 0 then some (.error .notInteger)
          else
            let ms := if option = ascii "EX" then amount * 1000 else amount
            setOptionsInBounds now args (i + 2) { opts with expiresAt := now + ms }
    else if option = ascii "NX" then
      if opts.xx then some (.error .malformed)
      else setOptionsInBounds now args (i + 1) { opts with nx := true }
    else if option = ascii "XX" then
      if opts.nx then some (.error .malformed)
      else setOptionsInBounds now args (i + 1) { opts with xx := true }
    else some (.error .malformed)
  else some (.ok opts)
termination_by args.length - i

/-- The pairing loops of `handle_mset` and `handle_hset` from `i` on. -/
def pairsInBounds (args : List Bytes) (i : Nat) : Option (List (Bytes × Bytes)) :=
  if _h : i < args.length then do
    let first ← args[i]?
    let second ← args[i + 1]?
    let rest ← pairsInBounds args (i + 2)
    some ((first, second) :: rest)
  else some []
termination_by args.length - i

/-! ## Handlers -/

/-- `handle_set` -/
def handleSetInBounds : HandlerInBounds := fun now cmd store =>
  if cmd.atLeast 2 then do
    match ← setOptionsInBounds now cmd.args 2 {} with
    | .error error => some (error.reply, store)
    | .ok opts => do
      let key ← cmd.args[0]?
      let present : Bool := store.exists now [key] > 0
      if (opts.nx && present) || (opts.xx && !present) then some (respNullBulk, store)
      else do
        let value ← cmd.args[1]?
        some (respOk, store.set key value opts.expiresAt)
  else some (wrongArity, store)

/-- `handle_get` -/
def handleGetInBounds : HandlerInBounds := withOne fun now key store =>
  (replyOr respNullBulk respBulk (store.get now key), store)

/-- `handle_incr` -/
def handleIncrInBounds : HandlerInBounds := withOne fun now key store =>
  let (n, store) := store.incr now key
  (replyResult respInteger n, store)

/-- `handle_incrby` -/
def handleIncrbyInBounds : HandlerInBounds := withNumber parseI64 fun now key delta store =>
  let (n, store) := store.incrby now key delta
  (replyResult respInteger n, store)

/-- `handle_decr` -/
def handleDecrInBounds : HandlerInBounds := withOne fun now key store =>
  let (n, store) := store.decr now key
  (replyResult respInteger n, store)

/-- `handle_decrby` -/
def handleDecrbyInBounds : HandlerInBounds := withNumber parseI64 fun now key delta store =>
  let (n, store) := store.decrby now key delta
  (replyResult respInteger n, store)

/-- `handle_append` -/
def handleAppendInBounds : HandlerInBounds := withTwo fun now key suffix store =>
  let (n, store) := store.append now key suffix
  (replyResult respCount n, store)

/-- `handle_strlen` -/
def handleStrlenInBounds : HandlerInBounds := withOne fun now key store =>
  (replyResult respCount (store.strlen now key), store)

/-- `handle_getset` -/
def handleGetsetInBounds : HandlerInBounds := withTwo fun now key value store =>
  let (old, store) := store.getset now key value
  (replyOr respNullBulk respBulk old, store)

/-- `handle_mset` -/
def handleMsetInBounds : HandlerInBounds := fun _ cmd store =>
  if cmd.args.length < 2 ∨ cmd.args.length % 2 ≠ 0 then some (wrongArity, store)
  else do
    let pairs ← pairsInBounds cmd.args 0
    some (respOk, store.mset pairs)

/-- `handle_expire` -/
def handleExpireInBounds : HandlerInBounds := withNumber parseU64 fun now key amount store =>
  let (set, store) := store.expire now key amount
  (respBool set, store)

/-- `handle_pexpire` -/
def handlePexpireInBounds : HandlerInBounds := withNumber parseU64 fun now key amount store =>
  let (set, store) := store.pexpire now key amount
  (respBool set, store)

/-- `handle_ttl` -/
def handleTtlInBounds : HandlerInBounds := withOne fun now key store =>
  (respInteger (store.ttl now key), store)

/-- `handle_pttl` -/
def handlePttlInBounds : HandlerInBounds := withOne fun now key store =>
  (respInteger (store.pttl now key), store)

/-- `handle_persist` -/
def handlePersistInBounds : HandlerInBounds := withOne fun now key store =>
  let (cleared, store) := store.persist now key
  (respBool cleared, store)

/-- `handle_lpush` -/
def handleLpushInBounds : HandlerInBounds := withTail fun now key values store =>
  let (len, store) := store.lpush now key values
  (replyCount len, store)

/-- `handle_rpush` -/
def handleRpushInBounds : HandlerInBounds := withTail fun now key values store =>
  let (len, store) := store.rpush now key values
  (replyCount len, store)

/-- `handle_lpop` -/
def handleLpopInBounds : HandlerInBounds := fun now cmd store =>
  if cmd.exact 1 then do
    let key ← cmd.args[0]?
    let (value, store) ← store.lpopInBounds now key
    some (replyOr respNullBulk respBulk value, store)
  else some (wrongArity, store)

/-- `handle_rpop` -/
def handleRpopInBounds : HandlerInBounds := fun now cmd store =>
  if cmd.exact 1 then do
    let key ← cmd.args[0]?
    let (value, store) ← store.rpopInBounds now key
    some (replyOr respNullBulk respBulk value, store)
  else some (wrongArity, store)

/-- `handle_lrange`; the second number is read behind a first one only. -/
def handleLrangeInBounds : HandlerInBounds := fun now cmd store =>
  if cmd.exact 3 then do
    match parseI64 (← cmd.args[1]?) with
    | none => some (integerError, store)
    | some start => do
      match parseI64 (← cmd.args[2]?) with
      | none => some (integerError, store)
      | some stop => do
        let key ← cmd.args[0]?
        let values ← store.lrangeInBounds now key start stop
        some (replyOr (stringArray []) stringArray values, store)
  else some (wrongArity, store)

/-- `handle_llen` -/
def handleLlenInBounds : HandlerInBounds := withOne fun now key store =>
  (replyOr (respInteger 0) respCount (store.llen now key), store)

/-- `handle_lindex` -/
def handleLindexInBounds : HandlerInBounds := fun now cmd store =>
  if cmd.exact 2 then do
    match parseI64 (← cmd.args[1]?) with
    | none => some (integerError, store)
    | some index => do
      let key ← cmd.args[0]?
      let value ← store.lindexInBounds now key index
      some (replyElement value, store)
  else some (wrongArity, store)

/-- `handle_hset` -/
def handleHsetInBounds : HandlerInBounds := fun now cmd store =>
  if cmd.args.length < 3 ∨ cmd.args.length % 2 = 0 then some (wrongArity, store)
  else do
    let _ ← cmd.args.length.psub 1 -- what is reserved
    let pairs ← pairsInBounds cmd.args 1
    let key ← cmd.args[0]?
    let (added, store) := store.hset now key pairs
    some (replyCount added, store)

/-- `handle_hget` -/
def handleHgetInBounds : HandlerInBounds := withTwo fun now key field store =>
  (replyOr respNullBulk respBulk (store.hget now key field), store)

/-- `handle_hdel` -/
def handleHdelInBounds : HandlerInBounds := withTail fun now key fields store =>
  let (removed, store) := store.hdel now key fields
  (replyCount removed, store)

/-- `handle_hgetall` -/
def handleHgetallInBounds : HandlerInBounds := withOne fun now key store =>
  (replyOr (stringArray []) stringArray (store.hgetall now key), store)

/-- `handle_hexists` -/
def handleHexistsInBounds : HandlerInBounds := withTwo fun now key field store =>
  (replyOr (respInteger 0) respBool (store.hexists now key field), store)

/-- `handle_hlen` -/
def handleHlenInBounds : HandlerInBounds := withOne fun now key store =>
  (replyOr (respInteger 0) respCount (store.hlen now key), store)

/-- `handle_hkeys` -/
def handleHkeysInBounds : HandlerInBounds := withOne fun now key store =>
  (replyOr (stringArray []) stringArray (store.hkeys now key), store)

/-- `handle_hvals` -/
def handleHvalsInBounds : HandlerInBounds := withOne fun now key store =>
  (replyOr (stringArray []) stringArray (store.hvals now key), store)

/-- `handle_sadd` -/
def handleSaddInBounds : HandlerInBounds := withTail fun now key members store =>
  let (added, store) := store.sadd now key members
  (replyCount added, store)

/-- `handle_srem` -/
def handleSremInBounds : HandlerInBounds := withTail fun now key members store =>
  let (removed, store) := store.srem now key members
  (replyCount removed, store)

/-- `handle_smembers` -/
def handleSmembersInBounds : HandlerInBounds := withOne fun now key store =>
  (replyOr (stringArray []) stringArray (store.smembers now key), store)

/-- `handle_sismember` -/
def handleSismemberInBounds : HandlerInBounds := withTwo fun now key member store =>
  (replyOr (respInteger 0) respBool (store.sismember now key member), store)

/-- `handle_scard` -/
def handleScardInBounds : HandlerInBounds := withOne fun now key store =>
  (replyOr (respInteger 0) respCount (store.scard now key), store)

/-- `handle_ping` -/
def handlePingInBounds : HandlerInBounds := fun _ cmd store =>
  if cmd.args = [] then some (simpleString (ascii "PONG"), store)
  else if cmd.exact 1 then do
    let message ← cmd.args[0]?
    some (respBulk message, store)
  else some (wrongArity, store)

/-- `handle_echo` -/
def handleEchoInBounds : HandlerInBounds := withOne fun _ message store =>
  (respBulk message, store)

/-- `handle_keys` -/
def handleKeysInBounds : HandlerInBounds := withOne fun now pattern store =>
  (stringArray (store.keys now pattern), store)

/-- `handle_type` -/
def handleTypeInBounds : HandlerInBounds := withOne fun now key store =>
  (simpleString (store.type now key), store)

/-- `handle_rename` -/
def handleRenameInBounds : HandlerInBounds := withTwo fun now src dst store =>
  let (renamed, store) := store.rename now src dst
  (if renamed then respOk else respError (ascii "ERR no such key"), store)

/-- `DISPATCH_TABLE`. Seven handlers read no argument by its index: they take none, or go through
all of them. -/
def dispatchTableInBounds : List (Bytes × HandlerInBounds) := [
  (ascii "APPEND", handleAppendInBounds),
  (ascii "DBSIZE", inBounds handleDbsize),
  (ascii "DECR", handleDecrInBounds),
  (ascii "DECRBY", handleDecrbyInBounds),
  (ascii "DEL", inBounds handleDel),
  (ascii "ECHO", handleEchoInBounds),
  (ascii "EXISTS", inBounds handleExists),
  (ascii "EXPIRE", handleExpireInBounds),
  (ascii "FLUSHDB", inBounds handleFlushdb),
  (ascii "GET", handleGetInBounds),
  (ascii "GETSET", handleGetsetInBounds),
  (ascii "HDEL", handleHdelInBounds),
  (ascii "HEXISTS", handleHexistsInBounds),
  (ascii "HGET", handleHgetInBounds),
  (ascii "HGETALL", handleHgetallInBounds),
  (ascii "HKEYS", handleHkeysInBounds),
  (ascii "HLEN", handleHlenInBounds),
  (ascii "HSET", handleHsetInBounds),
  (ascii "HVALS", handleHvalsInBounds),
  (ascii "INCR", handleIncrInBounds),
  (ascii "INCRBY", handleIncrbyInBounds),
  (ascii "KEYS", handleKeysInBounds),
  (ascii "LINDEX", handleLindexInBounds),
  (ascii "LLEN", handleLlenInBounds),
  (ascii "LPOP", handleLpopInBounds),
  (ascii "LPUSH", handleLpushInBounds),
  (ascii "LRANGE", handleLrangeInBounds),
  (ascii "MGET", inBounds handleMget),
  (ascii "MSET", handleMsetInBounds),
  (ascii "PERSIST", handlePersistInBounds),
  (ascii "PEXPIRE", handlePexpireInBounds),
  (ascii "PING", handlePingInBounds),
  (ascii "PTTL", handlePttlInBounds),
  (ascii "RENAME", handleRenameInBounds),
  (ascii "RPOP", handleRpopInBounds),
  (ascii "RPUSH", handleRpushInBounds),
  (ascii "SADD", handleSaddInBounds),
  (ascii "SCARD", handleScardInBounds),
  (ascii "SET", handleSetInBounds),
  (ascii "SINTER", inBounds handleSinter),
  (ascii "SISMEMBER", handleSismemberInBounds),
  (ascii "SMEMBERS", handleSmembersInBounds),
  (ascii "SREM", handleSremInBounds),
  (ascii "STRLEN", handleStrlenInBounds),
  (ascii "SUNION", inBounds handleSunion),
  (ascii "TTL", handleTtlInBounds),
  (ascii "TYPE", handleTypeInBounds)]

/-- `dispatch` -/
def dispatchInBounds : HandlerInBounds := fun now cmd store =>
  match dispatchTableInBounds.lookup cmd.name with
  | none => some (unknownCommand cmd.name, store)
  | some handler => handler now cmd store

/-! ## No read fails

One lemma for each form of argument list; a handler of the form is an instance. -/

section forms

variable {now : UInt64} {cmd : Command} {store : Store}

theorem pos_of_exact_one (h : cmd.exact 1) : 0 < cmd.args.length := by
  rw [h]
  exact Nat.one_pos

theorem one_lt_of_exact_two (h : cmd.exact 2) : 1 < cmd.args.length := by
  rw [h]
  exact Nat.one_lt_two

theorem pos_of_exact_two (h : cmd.exact 2) : 0 < cmd.args.length :=
  Nat.zero_lt_of_lt (one_lt_of_exact_two h)

theorem pos_of_atLeast_two (h : cmd.atLeast 2) : 0 < cmd.args.length := Nat.zero_lt_of_lt h

/-- A test for one argument lets the first be read. -/
theorem withOne_eq (f : UInt64 → Bytes → Store → Bytes × Store) :
    withOne f = inBounds fun now cmd store =>
      if h : cmd.exact 1 then f now (cmd.args.get ⟨0, pos_of_exact_one h⟩) store
      else (wrongArity, store) := by
  funext now cmd store
  rw [withOne, inBounds]
  by_cases h : cmd.exact 1
  · have hkey : cmd.args[0]? = some cmd.args[0] := List.getElem?_eq_getElem _
    rw [if_pos h, dif_pos h, hkey]
    rfl
  · rw [if_neg h, dif_neg h]

/-- A test for two arguments lets both be read. -/
theorem withTwo_eq (f : UInt64 → Bytes → Bytes → Store → Bytes × Store) :
    withTwo f = inBounds fun now cmd store =>
      if h : cmd.exact 2 then
        f now (cmd.args.get ⟨0, pos_of_exact_two h⟩) (cmd.args.get ⟨1, one_lt_of_exact_two h⟩) store
      else (wrongArity, store) := by
  funext now cmd store
  rw [withTwo, inBounds]
  by_cases h : cmd.exact 2
  · have hkey : cmd.args[0]? = some cmd.args[0] := List.getElem?_eq_getElem _
    have harg : cmd.args[1]? = some cmd.args[1] := List.getElem?_eq_getElem _
    rw [if_pos h, dif_pos h, hkey, harg]
    rfl
  · rw [if_neg h, dif_neg h]

/-- Both arguments are there, the number first and then the key. -/
theorem withNumber_eq {α : Type} (parse : Bytes → Option α)
    (f : UInt64 → Bytes → α → Store → Bytes × Store) (h : cmd.exact 2) :
    withNumber parse f now cmd store =
      some ((parse (cmd.args.get ⟨1, one_lt_of_exact_two h⟩)).elim (integerError, store)
        fun number => f now (cmd.args.get ⟨0, pos_of_exact_two h⟩) number store) := by
  have hkey : cmd.args[0]? = some cmd.args[0] := List.getElem?_eq_getElem _
  have htext : cmd.args[1]? = some cmd.args[1] := List.getElem?_eq_getElem _
  rw [withNumber, if_pos h, htext, Option.bind_eq_bind, Option.bind_some]
  show _ = some ((parse cmd.args[1]).elim _ _)
  -- the number is read first, so a bad one is refused before the key is looked at
  cases parse cmd.args[1] with
  | none => rfl
  | some number =>
    simp only [hkey]
    rfl

/-- `parse_i64` in front, and the good case first. -/
theorem withSigned_eq (f : UInt64 → Bytes → Int64 → Store → Bytes × Store) :
    withNumber parseI64 f = inBounds fun now cmd store =>
      if h : cmd.exact 2 then
        match parseI64 (cmd.args.get ⟨1, one_lt_of_exact_two h⟩) with
        | some number => f now (cmd.args.get ⟨0, pos_of_exact_two h⟩) number store
        | none => (integerError, store)
      else (wrongArity, store) := by
  funext now cmd store
  rw [inBounds]
  by_cases h : cmd.exact 2
  · rw [withNumber_eq parseI64 f h, dif_pos h]
    cases parseI64 (cmd.args.get ⟨1, one_lt_of_exact_two h⟩) <;> rfl
  · rw [withNumber, if_neg h, dif_neg h]

/-- `parse_u64` in front, and the error first. -/
theorem withUnsigned_eq (f : UInt64 → Bytes → UInt64 → Store → Bytes × Store) :
    withNumber parseU64 f = inBounds fun now cmd store =>
      if h : cmd.exact 2 then
        match parseU64 (cmd.args.get ⟨1, one_lt_of_exact_two h⟩) with
        | none => (integerError, store)
        | some number => f now (cmd.args.get ⟨0, pos_of_exact_two h⟩) number store
      else (wrongArity, store) := by
  funext now cmd store
  rw [inBounds]
  by_cases h : cmd.exact 2
  · rw [withNumber_eq parseU64 f h, dif_pos h]
    cases parseU64 (cmd.args.get ⟨1, one_lt_of_exact_two h⟩) <;> rfl
  · rw [withNumber, if_neg h, dif_neg h]

/-- The arguments behind an offset that is within them are read, and nothing else. -/
theorem tailArgsInBounds_eq {offset : Nat} (h : cmd.atLeast offset) :
    cmd.tailArgsInBounds offset = some (cmd.tailArgs offset) := by
  rw [Command.tailArgsInBounds, Nat.psub_eq_sub h, Option.bind_eq_bind, Option.bind_some,
    reads_eq (Nat.add_sub_cancel' h).le, Command.tailArgs, ← List.length_drop, List.take_length]

/-- A test for at least two arguments lets the first be read, and those behind it. -/
theorem withTail_eq (f : UInt64 → Bytes → List Bytes → Store → Bytes × Store) :
    withTail f = inBounds fun now cmd store =>
      if h : cmd.atLeast 2 then
        f now (cmd.args.get ⟨0, pos_of_atLeast_two h⟩) (cmd.tailArgs 1) store
      else (wrongArity, store) := by
  funext now cmd store
  rw [withTail, inBounds]
  by_cases h : cmd.atLeast 2
  -- both reads are covered by the arity check
  · have hkey : cmd.args[0]? = some cmd.args[0] := List.getElem?_eq_getElem _
    rw [if_pos h, dif_pos h, hkey, tailArgsInBounds_eq (Nat.le_of_succ_le h)]
    rfl
  · rw [if_neg h, dif_neg h]

end forms

/-! ### One argument -/

theorem handleDecrInBounds_eq : handleDecrInBounds = inBounds handleDecr := withOne_eq _

theorem handleEchoInBounds_eq : handleEchoInBounds = inBounds handleEcho := withOne_eq _

theorem handleGetInBounds_eq : handleGetInBounds = inBounds handleGet := withOne_eq _

theorem handleHgetallInBounds_eq : handleHgetallInBounds = inBounds handleHgetall := withOne_eq _

theorem handleHkeysInBounds_eq : handleHkeysInBounds = inBounds handleHkeys := withOne_eq _

theorem handleHlenInBounds_eq : handleHlenInBounds = inBounds handleHlen := withOne_eq _

theorem handleHvalsInBounds_eq : handleHvalsInBounds = inBounds handleHvals := withOne_eq _

theorem handleIncrInBounds_eq : handleIncrInBounds = inBounds handleIncr := withOne_eq _

theorem handleKeysInBounds_eq : handleKeysInBounds = inBounds handleKeys := withOne_eq _

theorem handleLlenInBounds_eq : handleLlenInBounds = inBounds handleLlen := withOne_eq _

theorem handlePersistInBounds_eq : handlePersistInBounds = inBounds handlePersist := withOne_eq _

theorem handlePttlInBounds_eq : handlePttlInBounds = inBounds handlePttl := withOne_eq _

theorem handleScardInBounds_eq : handleScardInBounds = inBounds handleScard := withOne_eq _

theorem handleSmembersInBounds_eq : handleSmembersInBounds = inBounds handleSmembers := withOne_eq _

theorem handleStrlenInBounds_eq : handleStrlenInBounds = inBounds handleStrlen := withOne_eq _

theorem handleTtlInBounds_eq : handleTtlInBounds = inBounds handleTtl := withOne_eq _

theorem handleTypeInBounds_eq : handleTypeInBounds = inBounds handleType := withOne_eq _

/-! ### Two arguments -/

theorem handleAppendInBounds_eq : handleAppendInBounds = inBounds handleAppend := withTwo_eq _

theorem handleGetsetInBounds_eq : handleGetsetInBounds = inBounds handleGetset := withTwo_eq _

theorem handleHexistsInBounds_eq : handleHexistsInBounds = inBounds handleHexists := withTwo_eq _

theorem handleHgetInBounds_eq : handleHgetInBounds = inBounds handleHget := withTwo_eq _

theorem handleRenameInBounds_eq : handleRenameInBounds = inBounds handleRename := withTwo_eq _

theorem handleSismemberInBounds_eq : handleSismemberInBounds = inBounds handleSismember :=
  withTwo_eq _

/-! ### A key and others -/

theorem handleHdelInBounds_eq : handleHdelInBounds = inBounds handleHdel := withTail_eq _

theorem handleLpushInBounds_eq : handleLpushInBounds = inBounds handleLpush := withTail_eq _

theorem handleRpushInBounds_eq : handleRpushInBounds = inBounds handleRpush := withTail_eq _

theorem handleSaddInBounds_eq : handleSaddInBounds = inBounds handleSadd := withTail_eq _

theorem handleSremInBounds_eq : handleSremInBounds = inBounds handleSrem := withTail_eq _

/-! ### A key and a number -/

theorem handleDecrbyInBounds_eq : handleDecrbyInBounds = inBounds handleDecrby := withSigned_eq _

theorem handleExpireInBounds_eq : handleExpireInBounds = inBounds handleExpire := withUnsigned_eq _

theorem handleIncrbyInBounds_eq : handleIncrbyInBounds = inBounds handleIncrby := withSigned_eq _

theorem handlePexpireInBounds_eq : handlePexpireInBounds = inBounds handlePexpire :=
  withUnsigned_eq _

/-! ### The loops -/

section loops

variable {now : UInt64} {args rest : List Bytes} {arg : Bytes} {i : Nat}

/-- What is left at `i`, read by index. -/
theorem getElem?_of_drop (h : args.drop i = arg :: rest) :
    i < args.length ∧ args[i]? = some arg ∧ args.drop (i + 1) = rest := by
  have hget : args[i]? = some arg := by rw [← List.head?_drop, h, List.head?_cons]
  refine ⟨(List.getElem?_eq_some_iff.mp hget).1, hget, ?_⟩
  rw [← List.tail_drop, h, List.tail_cons]

/-- The loop of `handle_set` reads what is left of the arguments, and nothing behind them. -/
theorem setOptionsInBounds_eq (opts : SetOptions) :
    ∀ {i : Nat}, args.drop i = rest →
      setOptionsInBounds now args i opts = some (setOptions now rest opts) := by
  -- along the turns of the loop; `i` is where what is left of the arguments begins
  fun_induction setOptions now rest opts
  case case1 opts =>
    intro i h
    rw [setOptionsInBounds, dif_neg (Nat.not_lt.mpr (List.drop_eq_nil_iff.mp h))]
  -- the amount of `EX` and `PX` is read only after the check that it is there
  case case2 arg opts option htimed =>
    intro i h
    obtain ⟨hi, hget, hrest⟩ := getElem?_of_drop h
    rw [setOptionsInBounds, dif_pos hi, hget]
    exact (if_pos htimed).trans (if_pos (List.drop_eq_nil_iff.mp hrest))
  case case3 arg opts option htimed arg' rest hparse =>
    intro i h
    obtain ⟨hi, hget, hrest⟩ := getElem?_of_drop h
    obtain ⟨hi', hget', -⟩ := getElem?_of_drop hrest
    rw [setOptionsInBounds, dif_pos hi, hget]
    refine (if_pos htimed).trans ((if_neg (by omega)).trans ?_)
    rw [hget', Option.bind_eq_bind, Option.bind_some, hparse]
  case case4 arg opts option htimed arg' rest hparse =>
    intro i h
    obtain ⟨hi, hget, hrest⟩ := getElem?_of_drop h
    obtain ⟨hi', hget', -⟩ := getElem?_of_drop hrest
    rw [setOptionsInBounds, dif_pos hi, hget]
    refine (if_pos htimed).trans ((if_neg (by omega)).trans ?_)
    rw [hget', Option.bind_eq_bind, Option.bind_some, hparse]
    rfl
  case case5 arg opts option htimed arg' rest amount hparse hpos ms ih =>
    intro i h
    obtain ⟨hi, hget, hrest⟩ := getElem?_of_drop h
    obtain ⟨hi', hget', hrest'⟩ := getElem?_of_drop hrest
    rw [setOptionsInBounds, dif_pos hi, hget]
    refine (if_pos htimed).trans ((if_neg (by omega)).trans ?_)
    rw [hget', Option.bind_eq_bind, Option.bind_some, hparse]
    exact (if_neg hpos).trans (ih hrest')
  case case6 arg rest opts option htimed hnx hboth =>
    intro i h
    obtain ⟨hi, hget, -⟩ := getElem?_of_drop h
    rw [setOptionsInBounds, dif_pos hi, hget]
    exact (if_neg htimed).trans ((if_pos hnx).trans (if_pos hboth))
  case case7 arg rest opts option htimed hnx hfree ih =>
    intro i h
    obtain ⟨hi, hget, hrest⟩ := getElem?_of_drop h
    rw [setOptionsInBounds, dif_pos hi, hget]
    exact (if_neg htimed).trans ((if_pos hnx).trans ((if_neg hfree).trans (ih hrest)))
  case case8 arg rest opts option htimed hnx hxx hboth =>
    intro i h
    obtain ⟨hi, hget, -⟩ := getElem?_of_drop h
    rw [setOptionsInBounds, dif_pos hi, hget]
    exact (if_neg htimed).trans ((if_neg hnx).trans ((if_pos hxx).trans (if_pos hboth)))
  case case9 arg rest opts option htimed hnx hxx hfree ih =>
    intro i h
    obtain ⟨hi, hget, hrest⟩ := getElem?_of_drop h
    rw [setOptionsInBounds, dif_pos hi, hget]
    exact (if_neg htimed).trans ((if_neg hnx).trans
      ((if_pos hxx).trans ((if_neg hfree).trans (ih hrest))))
  case case10 arg rest opts option htimed hnx hxx =>
    intro i h
    obtain ⟨hi, hget, -⟩ := getElem?_of_drop h
    rw [setOptionsInBounds, dif_pos hi, hget]
    exact (if_neg htimed).trans ((if_neg hnx).trans (if_neg hxx))

/-- Over whole pairs, the pairing loop reads what is left of the arguments. -/
theorem pairsInBounds_eq :
    ∀ {rest : List Bytes} {i : Nat}, args.drop i = rest → rest.length % 2 = 0 →
      pairsInBounds args i = some (pairs rest)
  | [], _, h, _ => by
    rw [pairsInBounds, dif_neg (Nat.not_lt.mpr (List.drop_eq_nil_iff.mp h))]
    rfl
  | [_], _, _, heven => absurd heven Nat.one_ne_zero
  | first :: second :: rest, i, h, heven => by
    obtain ⟨hi, hget, hrest⟩ := getElem?_of_drop h
    obtain ⟨-, hget', hrest'⟩ := getElem?_of_drop hrest
    -- an even number stays even two on, so the second of a pair is always there
    have heven' : rest.length % 2 = 0 := by
      simpa only [List.length_cons, Nat.add_assoc, Nat.reduceAdd, Nat.add_mod_right] using heven
    rw [pairsInBounds, dif_pos hi, hget, hget', pairsInBounds_eq hrest' heven']
    rfl

/-- The pairs are the arguments, each once and in order. -/
theorem flatMap_pairs : ∀ {rest : List Bytes}, rest.length % 2 = 0 →
    ((pairs rest).flatMap fun pair => [pair.1, pair.2]) = rest
  | [], _ => rfl
  | [_], heven => absurd heven Nat.one_ne_zero
  | first :: second :: rest, heven => by
    have heven' : rest.length % 2 = 0 := by
      simpa only [List.length_cons, Nat.add_assoc, Nat.reduceAdd, Nat.add_mod_right] using heven
    rw [pairs, List.flatMap_cons, flatMap_pairs heven']
    rfl

end loops

/-- `SET` reads its options in the loop, and the key and the value behind the same test. -/
theorem handleSetInBounds_eq : handleSetInBounds = inBounds handleSet := by
  funext now cmd store
  rw [handleSetInBounds, inBounds, handleSet]
  by_cases h : cmd.atLeast 2
  · have hkey : cmd.args[0]? = some cmd.args[0] := List.getElem?_eq_getElem _
    have hvalue : cmd.args[1]? = some cmd.args[1] := List.getElem?_eq_getElem _
    rw [if_pos h, dif_pos h, setOptionsInBounds_eq {} rfl, Option.bind_eq_bind, Option.bind_some]
    cases setOptions now (cmd.args.drop 2) {} with
    | error error => rfl
    | ok opts =>
      simp only [hkey, hvalue, Option.bind_eq_bind, Option.bind_some]
      split_ifs <;> rfl
  · rw [if_neg h, dif_neg h]

/-- `MSET` reads its arguments in pairs, behind a test that there are such. -/
theorem handleMsetInBounds_eq : handleMsetInBounds = inBounds handleMset := by
  funext now cmd store
  rw [handleMsetInBounds, inBounds, handleMset]
  by_cases h : cmd.args.length < 2 ∨ cmd.args.length % 2 ≠ 0
  · rw [if_pos h, if_pos h]
  · have heven : cmd.args.length % 2 = 0 := not_not.mp (not_or.mp h).2
    have hpairs : pairsInBounds cmd.args 0 = some (pairs cmd.args) := pairsInBounds_eq rfl heven
    rw [if_neg h, if_neg h, hpairs]
    rfl

/-- `HSET` reads a key and then pairs, behind a test that there are such. -/
theorem handleHsetInBounds_eq : handleHsetInBounds = inBounds handleHset := by
  funext now cmd store
  rw [handleHsetInBounds, inBounds, handleHset]
  by_cases h : cmd.args.length < 3 ∨ cmd.args.length % 2 = 0
  · rw [if_pos h, dif_pos h]
  · have hkey : cmd.args[0]? = some cmd.args[0] := List.getElem?_eq_getElem _
    have heven : (cmd.args.drop 1).length % 2 = 0 := by
      rw [List.length_drop]
      omega
    rw [if_neg h, dif_neg h, Nat.psub_eq_sub (by omega), pairsInBounds_eq rfl heven, hkey]
    rfl

/-- `LPOP` takes the front of a list that is not empty. -/
theorem handleLpopInBounds_eq : handleLpopInBounds = inBounds handleLpop := by
  funext now cmd store
  rw [handleLpopInBounds, inBounds, handleLpop]
  by_cases h : cmd.exact 1
  · have hkey : cmd.args[0]? = some cmd.args[0] := List.getElem?_eq_getElem _
    rw [if_pos h, dif_pos h, hkey, Option.bind_eq_bind, Option.bind_some, Store.lpopInBounds_eq]
    rfl
  · rw [if_neg h, dif_neg h]

/-- `RPOP` takes the back of a list that is not empty. -/
theorem handleRpopInBounds_eq : handleRpopInBounds = inBounds handleRpop := by
  funext now cmd store
  rw [handleRpopInBounds, inBounds, handleRpop]
  by_cases h : cmd.exact 1
  · have hkey : cmd.args[0]? = some cmd.args[0] := List.getElem?_eq_getElem _
    rw [if_pos h, dif_pos h, hkey, Option.bind_eq_bind, Option.bind_some, Store.rpopInBounds_eq]
    rfl
  · rw [if_neg h, dif_neg h]

/-- `LRANGE` reads three arguments, and the list inside its bounds. -/
theorem handleLrangeInBounds_eq : handleLrangeInBounds = inBounds handleLrange := by
  funext now cmd store
  rw [handleLrangeInBounds, inBounds, handleLrange]
  by_cases h : cmd.exact 3
  · have hkey : cmd.args[0]? = some cmd.args[0] := List.getElem?_eq_getElem _
    have hstart : cmd.args[1]? = some cmd.args[1] := List.getElem?_eq_getElem _
    have hstop : cmd.args[2]? = some cmd.args[2] := List.getElem?_eq_getElem _
    rw [if_pos h, dif_pos h, hstart, Option.bind_eq_bind, Option.bind_some]
    -- the second index is read only once the first is a number
    cases parseI64 cmd.args[1] with
    | none => rfl
    | some start =>
      simp only [hstop, Option.bind_eq_bind, Option.bind_some]
      cases parseI64 cmd.args[2] with
      | none => rfl
      | some stop =>
        simp only [hkey, Option.bind_some, Store.lrangeInBounds_eq]
  · rw [if_neg h, dif_neg h]

/-- `LINDEX` reads two arguments, and the list inside its bounds. -/
theorem handleLindexInBounds_eq : handleLindexInBounds = inBounds handleLindex := by
  funext now cmd store
  rw [handleLindexInBounds, inBounds, handleLindex]
  by_cases h : cmd.exact 2
  · have hkey : cmd.args[0]? = some cmd.args[0] := List.getElem?_eq_getElem _
    have hindex : cmd.args[1]? = some cmd.args[1] := List.getElem?_eq_getElem _
    rw [if_pos h, dif_pos h, hindex, Option.bind_eq_bind, Option.bind_some]
    cases parseI64 cmd.args[1] with
    | none => rfl
    | some index => simp only [hkey, Option.bind_eq_bind, Option.bind_some, Store.lindexInBounds_eq]
  · rw [if_neg h, dif_neg h]

/-- `PING` reads an argument only if there is one. -/
theorem handlePingInBounds_eq : handlePingInBounds = inBounds handlePing := by
  funext now cmd store
  rw [handlePingInBounds, inBounds, handlePing]
  by_cases hempty : cmd.args = []
  · rw [if_pos hempty, if_pos hempty]
  · rw [if_neg hempty, if_neg hempty]
    exact congr_fun₃ (withOne_eq fun _ message store => (respBulk message, store)) now cmd store

/-! ## Dispatch -/

/-- The table, row by row. -/
theorem dispatchTableInBounds_eq :
    dispatchTableInBounds = dispatchTable.map fun row => (row.1, inBounds row.2) := by
  simp only [dispatchTableInBounds, dispatchTable, List.map_cons, List.map_nil,
    handleAppendInBounds_eq, handleDecrInBounds_eq, handleDecrbyInBounds_eq, handleEchoInBounds_eq,
    handleExpireInBounds_eq, handleGetInBounds_eq, handleGetsetInBounds_eq, handleHdelInBounds_eq,
    handleHexistsInBounds_eq, handleHgetInBounds_eq, handleHgetallInBounds_eq,
    handleHkeysInBounds_eq, handleHlenInBounds_eq, handleHsetInBounds_eq, handleHvalsInBounds_eq,
    handleIncrInBounds_eq, handleIncrbyInBounds_eq, handleKeysInBounds_eq, handleLindexInBounds_eq,
    handleLlenInBounds_eq, handleLpopInBounds_eq, handleLpushInBounds_eq, handleLrangeInBounds_eq,
    handleMsetInBounds_eq, handlePersistInBounds_eq, handlePexpireInBounds_eq,
    handlePingInBounds_eq, handlePttlInBounds_eq, handleRenameInBounds_eq, handleRpopInBounds_eq,
    handleRpushInBounds_eq, handleSaddInBounds_eq, handleScardInBounds_eq, handleSetInBounds_eq,
    handleSismemberInBounds_eq, handleSmembersInBounds_eq, handleSremInBounds_eq,
    handleStrlenInBounds_eq, handleTtlInBounds_eq, handleTypeInBounds_eq]

/-- **No read fails**, whatever the name and the arguments are. -/
theorem dispatchInBounds_eq (now : UInt64) (cmd : Command) (store : Store) :
    dispatchInBounds now cmd store = some (dispatch now cmd store) := by
  rw [dispatchInBounds, dispatch, dispatchTableInBounds_eq, lookup_map]
  cases dispatchTable.lookup cmd.name <;> rfl

/-- **Arguments are read in range.** For every command, of any name and with any number of
arguments, and every store: dispatch with every read checked has a result, that of dispatch. In
`tail_args` the subtraction does not wrap as long as there are `offset` arguments; where `MSET`
and `HSET` pass their tests, their loops pair the arguments (all, or those after the key), each
once and in order; and the option loop of `SET` reads what there is after the first two. -/
theorem arguments_in_bounds :
    (∀ now cmd store, dispatchInBounds now cmd store = some (dispatch now cmd store)) ∧
    (∀ (cmd : Command) offset, cmd.atLeast offset →
      cmd.tailArgsInBounds offset = some (cmd.args.drop offset)) ∧
    (∀ cmd : Command, ¬ (cmd.args.length < 2 ∨ cmd.args.length % 2 ≠ 0) →
      ∃ pairs, pairsInBounds cmd.args 0 = some pairs ∧
        (pairs.flatMap fun pair => [pair.1, pair.2]) = cmd.args ∧
        ∀ now store, handleMset now cmd store = (respOk, store.mset pairs)) ∧
    (∀ cmd : Command, ¬ (cmd.args.length < 3 ∨ cmd.args.length % 2 = 0) →
      ∃ key pairs, cmd.args[0]? = some key ∧ pairsInBounds cmd.args 1 = some pairs ∧
        (pairs.flatMap fun pair => [pair.1, pair.2]) = cmd.args.drop 1 ∧
        ∀ now store, handleHset now cmd store =
          (replyCount (store.hset now key pairs).1, (store.hset now key pairs).2)) ∧
    ∀ now (cmd : Command) opts, setOptionsInBounds now cmd.args 2 opts =
      some (setOptions now (cmd.args.drop 2) opts) := by
  refine ⟨dispatchInBounds_eq, fun cmd offset => tailArgsInBounds_eq, fun cmd h => ?_,
    fun cmd h => ?_, fun now cmd opts => setOptionsInBounds_eq opts rfl⟩
  · have heven : cmd.args.length % 2 = 0 := not_not.mp (not_or.mp h).2
    exact ⟨pairs cmd.args, pairsInBounds_eq rfl heven, flatMap_pairs heven,
      fun now store => if_neg h⟩
  -- the key aside, what HSET pairs is even
  · have heven : (cmd.args.drop 1).length % 2 = 0 := by
      rw [List.length_drop]
      omega
    exact ⟨cmd.args[0], pairs (cmd.args.drop 1), List.getElem?_eq_getElem _,
      pairsInBounds_eq rfl heven, flatMap_pairs heven, fun now store => dif_neg h⟩

end Redix
