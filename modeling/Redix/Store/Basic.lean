import Redix.Base.FlatMap
import Redix.Base.Numbers

/-!
# The store (store.cpp)

The keyspace is one sorted map from keys to entries; an entry is a value of one
of four types and an absolute deadline in milliseconds, `0` for none. Every
operation takes the clock reading `now` under which it runs. An expired entry
stays in the map until something removes it: reads go through `findLive`, which
hides it, writes through `findLiveMut`, which erases it, and `sweepExpired`
removes some in the background.

Conventions:

- read operations return their result, write operations the result and the
  store after it;
- `std::expected<T, StoreError>` is `Except StoreError T`;
- counts and sizes of containers are unbounded (`Int`, so that the `-1` sentinel
  of the collection writers fits); no container in memory reaches `2^63`
  elements. Integers that users choose, and the index and deadline arithmetic on
  them, are `Int64` and `UInt64`;
- the mutex is not modelled: each operation runs under it as a whole.
-/

namespace Redix

/-! ## Values, entries, errors -/

/-- `RedisValue`: string, list, hash or set. Hashes and sets are flat sorted
containers; a set maps its members to `Unit`. -/
inductive RedisValue where
  | string (data : Bytes)
  | list (data : List Bytes)
  | hash (data : FlatMap Bytes Bytes)
  | set (data : FlatMap Bytes Unit)
deriving DecidableEq

/-- Which of the four alternatives a value is. -/
inductive ValueType where
  | string
  | list
  | hash
  | set
deriving DecidableEq

/-- The type of a value. -/
def RedisValue.type : RedisValue → ValueType
  | string _ => .string
  | list _ => .list
  | hash _ => .hash
  | set _ => .set

/-- `redis_type_name` -/
def ValueType.name : ValueType → Bytes
  | string => ascii "string"
  | list => ascii "list"
  | hash => ascii "hash"
  | set => ascii "set"

/-- One alternative of `RedisValue` with its data: what `std::get_if` and the
constructor of that alternative do, and that they fit together. -/
structure ValueKind (α : Type) where
  type : ValueType
  /-- Wrap the data. -/
  wrap : α → RedisValue
  /-- `std::get_if` -/
  get? : RedisValue → Option α
  get?_eq_some : ∀ v d, get? v = some d ↔ v = wrap d
  get?_eq_none : ∀ v, get? v = none ↔ v.type ≠ type

/-- What is wrapped is found. -/
@[simp] theorem ValueKind.get?_wrap {α : Type} (T : ValueKind α) (d : α) :
    T.get? (T.wrap d) = some d :=
  (T.get?_eq_some _ d).mpr rfl

/-- `StringValue` -/
def stringValue : ValueKind Bytes where
  type := .string
  wrap := .string
  get? | .string data => some data | _ => none
  get?_eq_some v d := by cases v <;> simp
  get?_eq_none v := by cases v <;> simp [RedisValue.type]

/-- `ListValue` -/
def listValue : ValueKind (List Bytes) where
  type := .list
  wrap := .list
  get? | .list data => some data | _ => none
  get?_eq_some v d := by cases v <;> simp
  get?_eq_none v := by cases v <;> simp [RedisValue.type]

/-- `HashValue` -/
def hashValue : ValueKind (FlatMap Bytes Bytes) where
  type := .hash
  wrap := .hash
  get? | .hash data => some data | _ => none
  get?_eq_some v d := by cases v <;> simp
  get?_eq_none v := by cases v <;> simp [RedisValue.type]

/-- `SetValue` -/
def setValue : ValueKind (FlatMap Bytes Unit) where
  type := .set
  wrap := .set
  get? | .set data => some data | _ => none
  get?_eq_some v d := by cases v <;> simp
  get?_eq_none v := by cases v <;> simp [RedisValue.type]

/-- `Entry` -/
structure Entry where
  value : RedisValue
  /-- Absolute deadline in milliseconds; `0` means none. -/
  expiresAtMs : UInt64 := 0
deriving DecidableEq

/-- `Entry::is_expired` -/
def Entry.isExpired (now : UInt64) (e : Entry) : Bool :=
  e.expiresAtMs ≠ 0 && e.expiresAtMs ≤ now

/-- `StoreErrorKind` -/
inductive StoreErrorKind where
  | keyNotFound
  | wrongType
  | notAnInteger
  | outOfRange
deriving DecidableEq

/-- `StoreError` -/
structure StoreError where
  kind : StoreErrorKind
  message : Bytes
deriving DecidableEq

/-- `key_not_found` -/
def keyNotFound : StoreError := ⟨.keyNotFound, ascii "ERR no such key"⟩

/-- `wrong_type` -/
def wrongType : StoreError :=
  ⟨.wrongType, ascii "WRONGTYPE Operation against a key holding the wrong kind of value"⟩

/-- `not_integer` -/
def notInteger : StoreError :=
  ⟨.notAnInteger, ascii "ERR value is not an integer or out of range"⟩

/-- `out_of_range` -/
def outOfRange : StoreError := ⟨.outOfRange, ascii "ERR index out of range"⟩

/-- `DataMap` -/
abbrev DataMap := FlatMap Bytes Entry

/-- `Store` -/
structure Store where
  data : DataMap

/-- A default-constructed store. -/
def Store.empty : Store := ⟨FlatMap.empty⟩

/-! ## Helpers -/

/-- `find_live_mut`: an expired entry is erased; the result is what is there
afterwards, and the map. -/
def findLiveMut (now : UInt64) (data : DataMap) (key : Bytes) :
    Option Entry × DataMap :=
  match data.find? key with
  | some e => if e.isExpired now then (none, data.erase key) else (some e, data)
  | none => (none, data)

/-- `find_live`: an expired entry counts as missing. -/
def findLive (now : UInt64) (data : DataMap) (key : Bytes) : Option Entry :=
  match data.find? key with
  | some e => if e.isExpired now then none else some e
  | none => none

/-- A 128-bit result, if it fits 64 bits. -/
def narrow (result : Int) : Except StoreError Int64 :=
  if result > 2 ^ 63 - 1 ∨ result < -2 ^ 63 then .error notInteger
  else .ok (.ofInt result)

/-- `checked_add` -/
def checkedAdd (lhs rhs : Int64) : Except StoreError Int64 :=
  narrow (lhs.toInt + rhs.toInt)

/-- `checked_subtract` -/
def checkedSubtract (lhs rhs : Int64) : Except StoreError Int64 :=
  narrow (lhs.toInt - rhs.toInt)

/-- `normalize_index` -/
def normalizeIndex (index size : Int64) : Int64 :=
  if index < 0 then size + index else index

/-- The variables of `glob_match`'s loop. A saved match position is never ahead
of the text position. -/
structure GlobState where
  /-- Next pattern byte. -/
  p : Nat
  /-- Next text byte. -/
  t : Nat
  /-- The last `*` seen, `npos` if none. -/
  star : Option Nat
  /-- Where in the text that `*` currently stops matching. -/
  mark : Nat
  mark_le : mark ≤ t

/-- The first loop of `glob_match`: the pattern position it ends at, or `none`
where it returns false. -/
def globLoop (pattern text : Bytes) (s : GlobState) : Option Nat :=
  if _ht : s.t < text.length then
    -- the bytes are compared first, so a `*` that faces a `*` is an ordinary byte here
    if _hp : s.p < pattern.length ∧ (pattern[s.p]? = some 63 ∨ pattern[s.p]? = text[s.t]?) then
      globLoop pattern text ⟨s.p + 1, s.t + 1, s.star, s.mark, Nat.le_succ_of_le s.mark_le⟩
    else if _hs : s.p < pattern.length ∧ pattern[s.p]? = some 42 then
      globLoop pattern text ⟨s.p + 1, s.t, some s.p, s.t, Nat.le_refl _⟩
    else
      match s.star with
      | some star =>
        -- back to the last star, which takes one byte more
        globLoop pattern text ⟨star + 1, s.mark + 1, some star, s.mark + 1, Nat.le_refl _⟩
      | none => none
  else some s.p
termination_by (text.length - s.mark, text.length - s.t, pattern.length - s.p)
decreasing_by
  · -- a byte matched: the text position advances
    exact Prod.Lex.right _ (Prod.Lex.left _ _ (by show _ - (s.t + 1) < _; omega))
  · -- a star: the match position catches up, or only the pattern position advances
    have hmark := s.mark_le
    rcases Nat.lt_or_ge s.mark s.t with hlt | hge
    · exact Prod.Lex.left _ _ (by show _ - s.t < _; omega)
    · have heq : s.mark = s.t := by omega
      rw [heq]
      exact Prod.Lex.right _ (Prod.Lex.right _ (by show _ - (s.p + 1) < _; omega))
  · -- a retry: the match position advances
    have hmark := s.mark_le
    exact Prod.Lex.left _ _ (by show _ - (s.mark + 1) < _; omega)

/-- The second loop of `glob_match`: the rest of the pattern is all `*`. -/
def globTail (pattern : Bytes) (p : Nat) : Bool :=
  (pattern.drop p).all (· == 42)

/-- `glob_match` -/
def globMatch (pattern text : Bytes) : Bool :=
  match globLoop pattern text ⟨0, 0, none, 0, Nat.le_refl _⟩ with
  | some p => globTail pattern p
  | none => false

end Redix
