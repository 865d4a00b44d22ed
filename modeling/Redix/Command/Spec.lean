import Redix.Command.Basic
import Redix.Store.Live

/-!
# What the commands are for

An abstract model of the command language, to be compared with the handlers. A
command is described by a `Spec`: which of its arguments are keys, how the rest
is parsed, and what it asks of the keyspace. Most commands work on one key, and
then what they ask is a `Look` (an answer from the live entry) or an `Update`
(an answer and perhaps a new entry). Nothing here knows about expired entries,
iterators or the order of checks inside the store.

- `Reply`: replies as values; a line-delimited text carries the proof that it is
  one line, so every `Reply` is one message.
- `Look`, `Update`: the operations on one key. A collection an `Update` writes
  carries the proof that it is not empty.
- `Spec.program`: the keyspace program of a command.
-/

namespace Redix

open Keyspace

/-! ## Replies as values -/

/-- A reply. -/
inductive Reply where
  | simple (text : Bytes) (h : NoCrlf text)
  | error (message : Bytes) (h : NoCrlf message)
  | integer (n : Int64)
  | bulk (s : Bytes)
  | null
  /-- Bulk strings and nulls. -/
  | array (elems : List (Option Bytes))

namespace Reply

/-- What is sent. -/
def bytes : Reply → Bytes
  | simple text _ => simpleString text
  | error message _ => respError message
  | integer n => respInteger n
  | bulk s => respBulk s
  | null => respNullBulk
  | array elems => optionalStringArray elems

/-- Whether it is an error. -/
def isError : Reply → Bool
  | error _ _ => true
  | _ => false

def ok : Reply := simple (ascii "OK") (by decide)

def wrongArity : Reply := error (ascii "wrong number of arguments") (by decide)

def syntaxError : Reply := error (ascii "ERR syntax error") (by decide)

def notInteger : Reply :=
  error (ascii "ERR value is not an integer or out of range") (by decide)

def wrongType : Reply :=
  error (ascii "WRONGTYPE Operation against a key holding the wrong kind of value")
    (by decide)

def noSuchKey : Reply := error (ascii "ERR no such key") (by decide)

/-- A count as an integer reply. -/
def count (n : Int) : Reply := integer (.ofInt n)

/-- A truth value as an integer reply. -/
def truth (b : Bool) : Reply := integer (if b then 1 else 0)

/-- An array of bulk strings. -/
def strings (values : List Bytes) : Reply := array (values.map some)

/-- A bulk string or null. -/
def bulk? : Option Bytes → Reply
  | some s => bulk s
  | none => null

end Reply

/-! ## Operations on one key -/

/-- A collection with at least one element; any string will do. -/
def RedisValue.NonEmpty : RedisValue → Prop
  | string _ => True
  | list data => data ≠ []
  | hash data => data.isEmpty = false
  | set data => data.isEmpty = false

/-- A read of one key. -/
inductive Look : Type 1 where
  /-- Answer from the data of a `T`, or `missing`. Neither answer is an error. -/
  | typed {α : Type} (T : ValueKind α) (missing : Reply) (render : α → Reply)
      (hmissing : missing.isError = false) (hrender : ∀ d, (render d).isError = false)
  /-- Answer from the entry, whatever its type. -/
  | untyped (answer : Option Entry → Reply)

/-- The answer of a read to the live entry. -/
def Look.run : Look → Option Entry → Reply
  | typed _ missing _ _ _, none => missing
  | typed T _ render _ _, some e =>
    match T.get? e.value with
    | none => .wrongType
    | some d => render d
  | untyped answer, o => answer o

/-- The type a read demands. -/
def Look.type? : Look → Option ValueType
  | typed T _ _ _ _ => some T.type
  | untyped _ => none

/-- A write to one key. -/
inductive Update : Type 1 where
  /-- Store a string, unless the options forbid it. -/
  | set (value : Bytes) (opts : SetOptions)
  /-- Step the number there; `initial` is the result for a missing key. -/
  | count (initial : Option Int64) (next : Int64 → Option Int64)
  /-- Extend a string. -/
  | append (suffix : Bytes)
  /-- Replace a string, answering the old one. -/
  | getset (value : Bytes)
  /-- Set the deadline. -/
  | expire (deadline : UInt64)
  /-- Drop the deadline. -/
  | persist
  /-- Add to a collection, or to a fresh one. The result is not empty. -/
  | add {α : Type} (T : ValueKind α) (fresh : α) (grow : α → Nat × α)
      (hgrow : ∀ d, (T.wrap (grow d).2).NonEmpty)
  /-- Remove from a collection, and the key with the last element. -/
  | remove {ν : Type} (T : ValueKind (FlatMap Bytes ν)) (elems : List Bytes)
      (hT : ∀ d, d.isEmpty = false → (T.wrap d).NonEmpty)
  /-- Take one element off a list, and the key with the last one. -/
  | pop (take : List Bytes → Option (Bytes × List Bytes))

/-- The answer of a write and the new entry (`none`: the key goes), or no write
at all. -/
abbrev Effect := Reply × Option (Option Entry)

/-- The shape of the typed writes. A value of another type stays. -/
def onType {α : Type} (T : ValueKind α) (missing : Effect) (present : Entry → α → Effect) :
    Option Entry → Effect
  | none => missing
  | some e =>
    match T.get? e.value with
    | none => (.wrongType, some (some e))
    | some d => present e d

section onType

variable {α : Type} {T : ValueKind α} {missing : Effect} {present : Entry → α → Effect}
  {e : Entry} {d : α}

/-- On an entry of another type: the error, and the entry is kept. -/
theorem onType_wrong (h : T.get? e.value = none) :
    onType T missing present (some e) = (.wrongType, some (some e)) := by
  rw [onType, h]

/-- On an entry of the type: what is done with its data. -/
theorem onType_right (h : T.get? e.value = some d) :
    onType T missing present (some e) = present e d := by
  rw [onType, h]

end onType

/-- What a write does to the live entry. -/
def Update.run : Update → Option Entry → Effect
  | set value opts, o =>
    if (opts.nx && o.isSome) || (opts.xx && !o.isSome) then (.null, none)
    else (.ok, some (some ⟨.string value, opts.expiresAt⟩))
  | count initial next, o =>
    onType stringValue
      (match initial with
        | none => (.notInteger, some none)
        | some n => (.integer n, some (some ⟨.string (Decimal.print n.toInt), 0⟩)))
      (fun e text =>
        match (parseI64 text).bind next with
        | none => (.notInteger, some (some e))
        | some n =>
          (.integer n, some (some { e with value := .string (Decimal.print n.toInt) })))
      o
  | append suffix, o =>
    onType stringValue
      (.count suffix.length, some (some ⟨.string suffix, 0⟩))
      (fun e text =>
        (.count (text ++ suffix).length,
          some (some { e with value := .string (text ++ suffix) })))
      o
  | getset value, o =>
    onType stringValue
      (.null, some (some ⟨.string value, 0⟩))
      (fun _ old => (.bulk old, some (some ⟨.string value, 0⟩)))
      o
  | expire deadline, o =>
    match o with
    | none => (.truth false, some none)
    | some e => (.truth true, some (some { e with expiresAtMs := deadline }))
  | persist, o =>
    match o with
    | none => (.truth false, some none)
    | some e => (.truth (e.expiresAtMs ≠ 0), some (some { e with expiresAtMs := 0 }))
  | add T fresh grow _, o =>
    onType T
      (.count (grow fresh).1, some (some ⟨T.wrap (grow fresh).2, 0⟩))
      (fun e d => (.count (grow d).1, some (some { e with value := T.wrap (grow d).2 })))
      o
  | remove T elems _, o =>
    onType T
      (.count 0, some none)
      (fun e d =>
        let (removed, d) := FlatMap.eraseAll elems d
        (.count removed, some (if d.isEmpty then none else some { e with value := T.wrap d })))
      o
  | pop take, o =>
    onType listValue
      (.null, some none)
      (fun e list =>
        match take list with
        | none => (.null, some none)
        | some (value, list) =>
          (.bulk value,
            some (if list.isEmpty then none else some { e with value := .list list })))
      o

section collections

variable {α ν : Type} {e : Entry}

/-- Nothing is added to an entry of another type. -/
theorem Update.add_wrong {T : ValueKind α} {fresh : α} {grow : α → Nat × α}
    {hgrow : ∀ d, (T.wrap (grow d).2).NonEmpty} (h : T.get? e.value = none) :
    (Update.add T fresh grow hgrow).run (some e) = (.wrongType, some (some e)) := by
  rw [run, onType_wrong h]

/-- What is added, and how much of it is new. -/
theorem Update.add_right {T : ValueKind α} {fresh : α} {grow : α → Nat × α}
    {hgrow : ∀ d, (T.wrap (grow d).2).NonEmpty} {d : α} (h : T.get? e.value = some d) :
    (Update.add T fresh grow hgrow).run (some e) =
      (.count (grow d).1, some (some { e with value := T.wrap (grow d).2 })) := by
  rw [run, onType_right h]

/-- Nothing is removed from an entry of another type. -/
theorem Update.remove_wrong {T : ValueKind (FlatMap Bytes ν)} {elems : List Bytes}
    {hT : ∀ d, d.isEmpty = false → (T.wrap d).NonEmpty} (h : T.get? e.value = none) :
    (Update.remove T elems hT).run (some e) = (.wrongType, some (some e)) := by
  rw [run, onType_wrong h]

/-- What is removed; with the last element the entry goes. -/
theorem Update.remove_right {T : ValueKind (FlatMap Bytes ν)} {elems : List Bytes}
    {hT : ∀ d, d.isEmpty = false → (T.wrap d).NonEmpty} {d : FlatMap Bytes ν}
    (h : T.get? e.value = some d) :
    (Update.remove T elems hT).run (some e) =
      (.count (FlatMap.eraseAll elems d).1,
        some (if (FlatMap.eraseAll elems d).2.isEmpty then none
          else some { e with value := T.wrap (FlatMap.eraseAll elems d).2 })) := by
  rw [run, onType_right h]

end collections

/-- The type a write demands. -/
def Update.type? : Update → Option ValueType
  | set _ _ => none
  | count _ _ => some .string
  | append _ => some .string
  | getset _ => some .string
  | expire _ => none
  | persist => none
  | add T _ _ _ => some T.type
  | remove T _ _ => some T.type
  | pop _ => some .list

/-! ## Commands -/

/-- What a command does with its arguments. The parsers see the arguments after
the key; what they refuse is answered without a look at the store. -/
inductive Spec : Type 1 where
  /-- An answer from the arguments alone. -/
  | talk (answer : List Bytes → Reply)
  /-- A read of the first argument. -/
  | look (parse : UInt64 → List Bytes → Except Reply Look)
  /-- A write to the first argument. -/
  | update (parse : UInt64 → List Bytes → Except Reply Update)
  /-- A read of all arguments. -/
  | gather (answer : List (Option Entry) → Reply)
  /-- Removal of all arguments. -/
  | delete
  /-- Writes to every other argument. -/
  | assign
  /-- A move of the first argument to the second. -/
  | move
  /-- A read of the whole keyspace. -/
  | survey (parse : List Bytes → Except Reply (DataMap → Reply))
  /-- Removal of the whole keyspace. -/
  | flush

/-- Remove a key, counting it if it is there. -/
def removal : Option Entry → Nat × Option Entry
  | none => (0, none)
  | some _ => (1, none)

/-- The keyspace program of a command on given arguments. -/
def Spec.program (now : UInt64) : Spec → List Bytes → Program Bytes Entry Reply
  | talk answer, args => .ret (answer args)
  | look parse, args =>
    match args with
    | [] => .ret .wrongArity
    | key :: rest =>
      match parse now rest with
      | .error reply => .ret reply
      | .ok l => .look key l.run
  | update parse, args =>
    match args with
    | [] => .ret .wrongArity
    | key :: rest =>
      match parse now rest with
      | .error reply => .ret reply
      | .ok u => .step key u.run
  | gather answer, args =>
    if args = [] then .ret .wrongArity else .reads args fun os => .ret (answer os)
  | delete, args =>
    if args = [] then .ret .wrongArity
    else .cells (args.map fun key => (key, removal)) fun n => .count n
  | assign, args =>
    if args.length < 2 ∨ args.length % 2 ≠ 0 then .ret .wrongArity
    else
      .cells ((pairs args).map fun pair => (pair.1, fun _ => (0, some ⟨.string pair.2, 0⟩)))
        fun _ => .ok
  | move, args =>
    match args with
    | [src, dst] => .move src dst .ok .noSuchKey
    | _ => .ret .wrongArity
  | survey parse, args =>
    match parse args with
    | .error reply => .ret reply
    | .ok answer => .scan fun m => .ret (answer m)
  | flush, args => if args = [] then .clear (.ret .ok) else .ret .wrongArity

/-- The handler that a description stands for. -/
def Spec.serve (spec : Spec) : Handler := fun now cmd store =>
  let (reply, store) := store.exec now (spec.program now cmd.args)
  (reply.bytes, store)

end Redix
