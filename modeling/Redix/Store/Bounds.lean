import Redix.Store.Ranges

/-!
# The store stays in its lists

The operations that read a list by position, with each read checked: one outside the list has no
result. The 64-bit computations are the code's own, so nothing is assumed about how long the list
is.

- `sliceInBounds`, `elementInBounds`: `lrange` and `lindex` on the list;
- `Store.popInBounds`: `lpop` and `rpop`, where `front` and `back` of an empty list fault;
- `…_eq`: none of the reads fails.
-/

namespace Redix

variable {data : List Bytes} {start stop index : Int64}

/-! ## On the list -/

/-- The elements `lrange` collects. -/
def sliceInBounds (data : List Bytes) (start stop : Int64) : Option (List Bytes) :=
  let size := Int64.ofNat data.length
  let first := normalizeIndex start size
  let last := normalizeIndex stop size
  let first := if first < 0 then 0 else first
  let last := if last ≥ size then size - 1 else last
  if size = 0 ∨ first > last ∨ first ≥ size ∨ last < 0 then some []
  else collectChecked data last first

/-- The element `lindex` returns. -/
def elementInBounds (data : List Bytes) (index : Int64) : Option (Option Bytes) :=
  let size := Int64.ofNat data.length
  let normalized := normalizeIndex index size
  if normalized < 0 ∨ normalized ≥ size then some none
  else data[normalized.toInt.toNat]?.map some

/-- A size that wraps is no larger than the list. -/
theorem toInt_size_le (data : List Bytes) : (Int64.ofNat data.length).toInt ≤ data.length := by
  have hmodulus : Int64.size = 2 ^ 64 := rfl
  rw [Int64.toInt_ofNat', Int.bmod_eq_emod, hmodulus]
  split_ifs <;> omega

section reads

variable {size first last : Int64}

/-- A position that passes the test is in the list. -/
theorem element_read (hsize : size.toInt ≤ data.length) (normalized : Int64) :
    (if normalized < 0 ∨ normalized ≥ size then some none
      else data[normalized.toInt.toNat]?.map some) =
    some (if normalized < 0 ∨ normalized ≥ size then none else data[normalized.toInt.toNat]?) := by
  by_cases hout : normalized < 0 ∨ normalized ≥ size
  · rw [if_pos hout, if_pos hout]
  · have hin := not_or.mp hout
    rw [ge_iff_le, Int64.lt_iff_toInt_lt, Int64.le_iff_toInt_le, Int64.toInt_zero] at hin
    have hlt : normalized.toInt.toNat < data.length := by omega
    rw [if_neg hout, if_neg hout, List.getElem?_eq_getElem hlt, Option.map_some]

/-- Between positions that are cut to the list, the loop reads what is there. -/
theorem slice_read (hsize : size.toInt ≤ data.length) (hfirst : 0 ≤ first.toInt)
    (hlast : 0 < size.toInt → last.toInt < size.toInt) :
    (if size = 0 ∨ first > last ∨ first ≥ size ∨ last < 0 then some []
      else collectChecked data last first) =
    some (if size = 0 ∨ first > last ∨ first ≥ size ∨ last < 0 then []
      else (data.drop first.toInt.toNat).take (last - first + 1).toInt.toNat) := by
  by_cases hempty : size = 0 ∨ first > last ∨ first ≥ size ∨ last < 0
  · rw [if_pos hempty, if_pos hempty]
  · rw [if_neg hempty, if_neg hempty]
    simp only [not_or, gt_iff_lt, ge_iff_le, Int64.lt_iff_toInt_lt, Int64.le_iff_toInt_le,
      Int64.toInt_zero] at hempty
    obtain ⟨-, hle, hlt, hpos⟩ := hempty
    have hlast := hlast (by omega)
    have hsizeRange := inRange_toInt size
    unfold InRange at hsizeRange
    -- the length of the slice is computed without overflow, as both ends are in the list
    have hsub : checked (last.toInt - first.toInt) = some (last - first) :=
      checked_sub (by unfold InRange; omega)
    have hdifference := toInt_of_checked hsub
    have hrange : InRange ((last - first).toInt + 1) := by
      unfold InRange
      omega
    have hadd : checked ((last - first).toInt + 1) = some (last - first + 1) :=
      checked_add (b := 1) hrange
    have hcount := toInt_of_checked hadd
    have hmax : InRange (last.toInt + 1) := by
      unfold InRange
      omega
    exact collectChecked_eq hmax _ (by omega) (by omega) (by omega)

/-- Where `lrange` cuts the last position. -/
theorem toInt_cutLast_lt (h : 0 < size.toInt) :
    (if last ≥ size then size - 1 else last).toInt < size.toInt := by
  by_cases hout : last ≥ size
  · have hsizeRange := inRange_toInt size
    unfold InRange at hsizeRange
    have hrange : InRange (size.toInt - 1) := by
      unfold InRange
      omega
    have hsub : checked (size.toInt - 1) = some (size - 1) := checked_sub (b := 1) hrange
    rw [if_pos hout, toInt_of_checked hsub]
    omega
  · rw [ge_iff_le, Int64.le_iff_toInt_le] at hout
    rw [if_neg (by rwa [ge_iff_le, Int64.le_iff_toInt_le])]
    omega

end reads

/-- `lindex` reads inside the list. -/
theorem elementInBounds_eq : elementInBounds data index = some (element data index) :=
  element_read (toInt_size_le data) _

/-- `lrange` reads inside the list. -/
theorem sliceInBounds_eq : sliceInBounds data start stop = some (slice data start stop) := by
  refine slice_read (toInt_size_le data) ?_ toInt_cutLast_lt
  rw [toInt_cutFirst]
  exact le_max_right _ _

namespace Store

/-! ## On the store -/

variable {α β : Type} {now : UInt64} {key : Bytes}

/-- The typed reads. -/
def readAsInBounds (T : ValueKind α) (s : Store) (now : UInt64) (key : Bytes)
    (f : α → Option (Except StoreError β)) : Option (Except StoreError β) :=
  match findLive now s.data key with
  | none => some (.error keyNotFound)
  | some e =>
    match T.get? e.value with
    | none => some (.error wrongType)
    | some data => f data

/-- `Store::lrange` -/
def lrangeInBounds (s : Store) (now : UInt64) (key : Bytes) (start stop : Int64) :
    Option (Except StoreError (List Bytes)) :=
  s.readAsInBounds listValue now key fun data => (sliceInBounds data start stop).map .ok

/-- `Store::lindex` -/
def lindexInBounds (s : Store) (now : UInt64) (key : Bytes) (index : Int64) :
    Option (Except StoreError Bytes) :=
  s.readAsInBounds listValue now key fun data => do
    match ← elementInBounds data index with
    | none => some (.error outOfRange)
    | some value => some (.ok value)

/-- `lpop` and `rpop`; `take` is not for empty lists. -/
def popInBounds (take : List Bytes → Option (Bytes × List Bytes)) (s : Store) (now : UInt64)
    (key : Bytes) : Option (Except StoreError Bytes × Store) :=
  match findLiveMut now s.data key with
  | (none, data) => some (.error keyNotFound, ⟨data⟩)
  | (some e, data) =>
    match listValue.get? e.value with
    | none => some (.error wrongType, ⟨data⟩)
    | some list =>
      if list.isEmpty then some (.error keyNotFound, ⟨data.erase key⟩)
      else do
        let (value, list) ← take list
        if list.isEmpty then some (.ok value, ⟨data.erase key⟩)
        else some (.ok value, ⟨data.insert key { e with value := .list list }⟩)

/-- `Store::lpop` -/
def lpopInBounds (s : Store) (now : UInt64) (key : Bytes) :
    Option (Except StoreError Bytes × Store) :=
  s.popInBounds popFront now key

/-- `Store::rpop` -/
def rpopInBounds (s : Store) (now : UInt64) (key : Bytes) :
    Option (Except StoreError Bytes × Store) :=
  s.popInBounds popBack now key

/-- A typed read fails nowhere if what it computes from the data does not. -/
theorem readAsInBounds_eq (T : ValueKind α) (s : Store) {f : α → Option (Except StoreError β)}
    {g : α → Except StoreError β} (h : ∀ data, f data = some (g data)) :
    s.readAsInBounds T now key f = some (s.readAs T now key g) := by
  rw [readAsInBounds, readAs]
  cases findLive now s.data key with
  | none => rfl
  | some e =>
    cases hget : T.get? e.value with
    | none => simp only [hget]
    | some data => simp only [hget, h data]

/-- `lrange` fails nowhere. -/
theorem lrangeInBounds_eq (s : Store) :
    s.lrangeInBounds now key start stop = some (s.lrange now key start stop) :=
  readAsInBounds_eq listValue s fun data => by rw [sliceInBounds_eq, Option.map_some]

/-- `lindex` fails nowhere. -/
theorem lindexInBounds_eq (s : Store) :
    s.lindexInBounds now key index = some (s.lindex now key index) :=
  readAsInBounds_eq listValue s fun data => by
    rw [elementInBounds_eq, Option.bind_eq_bind, Option.bind_some]
    cases element data index <;> rfl

/-- `take` splits an element off each list but the empty one. -/
theorem popInBounds_eq {take : List Bytes → Option (Bytes × List Bytes)}
    (hempty : take [] = none) (htake : ∀ list, list ≠ [] → take list ≠ none) (s : Store) :
    s.popInBounds take now key = some (s.pop take now key) := by
  rw [popInBounds, pop]
  obtain ⟨found, data⟩ := findLiveMut now s.data key
  cases found with
  | none => rfl
  | some e =>
    cases hget : listValue.get? e.value with
    | none => simp only [hget]
    | some list =>
      simp only [hget]
      -- only here is the list read, and an empty one is not
      cases list with
      | nil =>
        rw [hempty]
        rfl
      | cons value rest =>
        cases hsplit : take (value :: rest) with
        | none => exact absurd hsplit (htake _ (List.cons_ne_nil value rest))
        | some split =>
          obtain ⟨taken, list⟩ := split
          cases list <;> rfl

/-- `lpop` takes the front of a list that has one. -/
theorem lpopInBounds_eq (s : Store) : s.lpopInBounds now key = some (s.lpop now key) :=
  popInBounds_eq rfl (fun list hne => by
    cases list with
    | nil => exact absurd rfl hne
    | cons value rest => exact Option.some_ne_none _) s

/-- `rpop` takes the back of a list that has one. -/
theorem rpopInBounds_eq (s : Store) : s.rpopInBounds now key = some (s.rpop now key) :=
  popInBounds_eq rfl (fun list hne => by
    rw [popBack, List.getLast?_eq_some_getLast hne]
    exact Option.some_ne_none _) s

end Store

end Redix
