import Redix.Base.Window
import Redix.Store.Operations

/-!
# Positions in a list

`lrange` and `lindex` compute with signed 64-bit positions. Here they are repeated with every
operation checked: an overflow, or an index outside the list, gives no result
(`sliceChecked`, `elementChecked`). They always have a result, the one that the unchecked
operations have, and it is the window of the list that the positions say in the integers.
-/

namespace Redix

variable {data : List Bytes} {size index start stop : Int64}

/-! ## With checks -/

/-- A 64-bit integer, if it is one. -/
def checked (n : Int) : Option Int64 := if InRange n then some (.ofInt n) else none

/-- A checked number is the number. -/
theorem toInt_of_checked {n : Int} {m : Int64} (h : checked n = some m) : m.toInt = n := by
  unfold checked at h
  split_ifs at h with hrange
  rw [← Option.some.inj h, toInt_ofInt hrange]

/-- A sum that passes the check is what the unchecked addition computes. -/
theorem checked_add {a b : Int64} (h : InRange (a.toInt + b.toInt)) :
    checked (a.toInt + b.toInt) = some (a + b) := by
  rw [checked, if_pos h, Int64.ofInt_add, Int64.ofInt_toInt, Int64.ofInt_toInt]

/-- A difference that is in range is computed. -/
theorem checked_sub {a b : Int64} (h : InRange (a.toInt - b.toInt)) :
    checked (a.toInt - b.toInt) = some (a - b) := by
  rw [checked, if_pos h, Int64.ofInt_sub, Int64.ofInt_toInt, Int64.ofInt_toInt]

/-- `normalize_index` -/
def normalizeIndexChecked (index size : Int64) : Option Int64 :=
  if index < 0 then checked (size.toInt + index.toInt) else some index

/-- Where `lrange` cuts the last position. -/
def cutLastChecked (last size : Int64) : Option Int64 :=
  if last ≥ size then checked (size.toInt - 1) else some last

/-- The loop of `lrange` from `i` on. -/
def collectChecked (data : List Bytes) (last i : Int64) : Option (List Bytes) :=
  if _hle : i ≤ last then
    if i < 0 then none
    else
      match data[i.toInt.toNat]?, _hnext : checked (i.toInt + 1) with
      | some value, some next => (collectChecked data last next).map (value :: ·)
      | _, _ => none
  else some []
termination_by (last.toInt + 1 - i.toInt).toNat
decreasing_by
  have hlater := toInt_of_checked _hnext
  have hle := Int64.le_iff_toInt_le.mp _hle
  omega

/-- `lrange` on the list. -/
def sliceChecked (data : List Bytes) (start stop : Int64) : Option (List Bytes) := do
  let size ← checked data.length
  let first ← normalizeIndexChecked start size
  let last ← normalizeIndexChecked stop size
  let first := if first < 0 then 0 else first
  let last ← cutLastChecked last size
  if size = 0 ∨ first > last ∨ first ≥ size ∨ last < 0 then some []
  else
    let difference ← checked (last.toInt - first.toInt)
    let _ ← checked (difference.toInt + 1)
    collectChecked data last first

/-- `lindex` on the list. -/
def elementChecked (data : List Bytes) (index : Int64) : Option (Option Bytes) := do
  let size ← checked data.length
  let normalized ← normalizeIndexChecked index size
  if normalized < 0 ∨ normalized ≥ size then some none
  else data[normalized.toInt.toNat]?.map some

/-! ## Positions in the integers -/

/-- The position that an index says in a list of `n` elements: from the back if negative. -/
def position (n : Nat) (index : Int64) : Int :=
  if index.toInt < 0 then n + index.toInt else index.toInt

/-- `normalize_index` does not overflow, and finds the position. -/
theorem normalizeIndexChecked_eq (hsize : size.toInt = data.length) (index : Int64) :
    normalizeIndexChecked index size = some (normalizeIndex index size) ∧
      (normalizeIndex index size).toInt = position data.length index := by
  have hindex := inRange_toInt index
  have hsizeRange := inRange_toInt size
  unfold InRange at hindex hsizeRange
  have hiff : index < 0 ↔ index.toInt < 0 := Int64.lt_iff_toInt_lt
  rw [normalizeIndexChecked, normalizeIndex, position]
  -- a negative index counts from the end; the sum is in range as the two have opposite signs
  by_cases hneg : index < 0
  · have hneg' := hiff.mp hneg
    have hrange : InRange (size.toInt + index.toInt) := by
      unfold InRange
      omega
    have hsum := checked_add hrange
    rw [if_pos hneg, if_pos hneg, if_pos hneg', ← hsize]
    exact ⟨hsum, toInt_of_checked hsum⟩
  · rw [if_neg hneg, if_neg hneg, if_neg (mt hiff.mpr hneg)]
    exact ⟨rfl, rfl⟩

/-- The loop collects the elements from `i` on, and stays inside the list. -/
theorem collectChecked_eq {last : Int64} (hmax : InRange (last.toInt + 1)) (k : Nat) :
    ∀ {i : Int64} {a : Nat}, i.toInt = a → last.toInt + 1 = a + k → a + k ≤ data.length →
      collectChecked data last i = some ((data.drop a).take k) := by
  -- on the number of elements still to collect
  induction k with
  | zero =>
    intro i a hi hlast hin
    have hstop : ¬ i ≤ last := by
      rw [Int64.le_iff_toInt_le]
      omega
    rw [collectChecked, dif_neg hstop]
    rfl
  | succ k ih =>
    intro i a hi hlast hin
    have hle : i ≤ last := by
      rw [Int64.le_iff_toInt_le]
      omega
    have hpos : ¬ i < 0 := by
      rw [Int64.lt_iff_toInt_lt, Int64.toInt_zero]
      omega
    have ha : a < data.length := by omega
    -- the counter passes `last` by one, which `hmax` leaves room for
    have hrange : InRange (i.toInt + 1) := by
      unfold InRange at hmax ⊢
      omega
    have hnext : checked (i.toInt + 1) = some (i + 1) := checked_add (b := 1) hrange
    have hget : data[i.toInt.toNat]? = some data[a] := by
      rw [hi, Int.toNat_natCast, List.getElem?_eq_getElem ha]
    rw [collectChecked, dif_pos hle, if_neg hpos]
    split
    · rename_i value next hvalue hnext'
      obtain rfl : data[a] = value := Option.some.inj (hget.symm.trans hvalue)
      obtain rfl : i + 1 = next := Option.some.inj (hnext.symm.trans hnext')
      rw [ih (a := a + 1) (by rw [toInt_of_checked hnext, hi]; rfl) (by omega) (by omega),
        List.drop_eq_getElem_cons ha]
      rfl
    · rename_i hnone
      exact absurd hnext (hnone data[a] (i + 1) hget)

/-- The length of a list is a signed number. -/
theorem toInt_length (hlen : data.length < 2 ^ 63) :
    (Int64.ofNat data.length).toInt = data.length :=
  Int64.toInt_ofNat_of_lt hlen

/-- The cast of a length keeps it. -/
theorem checked_length (hlen : data.length < 2 ^ 63) :
    checked data.length = some (Int64.ofNat data.length) := by
  have hrange : InRange data.length := by
    unfold InRange
    omega
  rw [checked, if_pos hrange]
  rfl

/-- The first index is cut off at zero. -/
theorem toInt_cutFirst (first : Int64) :
    (if first < 0 then 0 else first).toInt = max first.toInt 0 := by
  by_cases hneg : first < 0
  · rw [if_pos hneg]
    rw [Int64.lt_iff_toInt_lt, Int64.toInt_zero] at hneg
    exact (max_eq_right hneg.le).symm
  · rw [if_neg hneg]
    rw [Int64.lt_iff_toInt_lt, Int64.toInt_zero, not_lt] at hneg
    exact (max_eq_left hneg).symm

/-- The last index is cut off at the end of the list. -/
theorem cutLastChecked_eq (hsize : size.toInt = data.length) (last : Int64) :
    cutLastChecked last size = some (if last ≥ size then size - 1 else last) ∧
      (if last ≥ size then size - 1 else last).toInt = min last.toInt (data.length - 1) := by
  have hsizeRange := inRange_toInt size
  unfold InRange at hsizeRange
  rw [cutLastChecked]
  -- one beyond the end is the last element, also of an empty list: then it is -1
  by_cases hout : last ≥ size
  · have hrange : InRange (size.toInt - (1 : Int64).toInt) := by
      show InRange (size.toInt - 1)
      unfold InRange
      omega
    have hsub := checked_sub hrange
    rw [if_pos hout, if_pos hout, toInt_of_checked hsub]
    rw [ge_iff_le, Int64.le_iff_toInt_le] at hout
    refine ⟨hsub, ?_⟩
    show size.toInt - 1 = _
    omega
  · rw [if_neg hout, if_neg hout]
    rw [ge_iff_le, Int64.le_iff_toInt_le] at hout
    exact ⟨rfl, by omega⟩

/-- Between positions that are cut to the list, both computations give the window. -/
theorem cut_window (hlen : data.length < 2 ^ 63) (hsize : size.toInt = data.length)
    {first last : Int64} {s e : Int} (hfirst : first.toInt = max s 0)
    (hlast : last.toInt = min e (data.length - 1)) :
    (if size = 0 ∨ first > last ∨ first ≥ size ∨ last < 0 then some []
      else (checked (last.toInt - first.toInt)).bind fun difference =>
        (checked (difference.toInt + 1)).bind fun _ => collectChecked data last first) =
      some (data.window s e) ∧
    (if size = 0 ∨ first > last ∨ first ≥ size ∨ last < 0 then []
      else (data.drop first.toInt.toNat).take (last - first + 1).toInt.toNat) =
      data.window s e := by
  have hempty : (size = 0 ∨ first > last ∨ first ≥ size ∨ last < 0) ↔
      data.length = 0 ∨ last.toInt < first.toInt ∨ data.length ≤ first.toInt ∨ last.toInt < 0 := by
    simp only [← Int64.toInt_inj, gt_iff_lt, ge_iff_le, Int64.lt_iff_toInt_lt,
      Int64.le_iff_toInt_le, hsize, Int64.toInt_zero, Int.natCast_eq_zero]
  rw [List.window_eq]
  by_cases hcond : size = 0 ∨ first > last ∨ first ≥ size ∨ last < 0
  · -- nothing of the list lies between the positions
    have hnothing := hempty.mp hcond
    have hnil : (data.drop s.toNat).take (e + 1 - max s 0).toNat = [] := by
      refine List.eq_nil_of_length_eq_zero ?_
      rw [List.length_take, List.length_drop]
      omega
    rw [if_pos hcond, if_pos hcond, hnil]
    exact ⟨rfl, rfl⟩
  · have hsome := mt hempty.mpr hcond
    have hdifference : InRange (last.toInt - first.toInt) := by
      unfold InRange
      omega
    have hsub := checked_sub hdifference
    have hcount : InRange ((last - first).toInt + 1) := by
      rw [toInt_of_checked hsub]
      unfold InRange
      omega
    have hadd : checked ((last - first).toInt + 1) = some (last - first + 1) :=
      checked_add (b := 1) hcount
    have hk : (last - first + 1).toInt = last.toInt - first.toInt + 1 := by
      rw [toInt_of_checked hadd, toInt_of_checked hsub]
    have htake : (data.drop s.toNat).take (last - first + 1).toInt.toNat =
        (data.drop s.toNat).take (e + 1 - max s 0).toNat := by
      rw [List.take_eq_take_iff, List.length_drop, hk]
      omega
    have hdrop : first.toInt.toNat = s.toNat := by omega
    have hmax : InRange (last.toInt + 1) := by
      unfold InRange
      omega
    have hcollect : collectChecked data last first = some _ :=
      collectChecked_eq hmax (last - first + 1).toInt.toNat (a := s.toNat) (by omega) (by omega)
        (by omega)
    rw [if_neg hcond, if_neg hcond, hsub, Option.bind_some, hadd, Option.bind_some, hcollect,
      hdrop, htake]
    exact ⟨rfl, rfl⟩

/-- **The slice is a window**, and no check fails on the way. -/
theorem sliceChecked_eq (hlen : data.length < 2 ^ 63) (start stop : Int64) :
    sliceChecked data start stop = some (slice data start stop) ∧
      slice data start stop =
        data.window (position data.length start) (position data.length stop) := by
  have hsize := toInt_length hlen
  obtain ⟨hfirst, hs⟩ := normalizeIndexChecked_eq hsize start
  obtain ⟨hlast, he⟩ := normalizeIndexChecked_eq hsize stop
  obtain ⟨hcut, he'⟩ := cutLastChecked_eq hsize (normalizeIndex stop (Int64.ofNat data.length))
  have hs' := toInt_cutFirst (normalizeIndex start (Int64.ofNat data.length))
  rw [hs] at hs'
  rw [he] at he'
  obtain ⟨hchecked, hslice⟩ := cut_window hlen hsize hs' he'
  have hwindow : slice data start stop = _ := hslice
  refine ⟨?_, hwindow⟩
  rw [hwindow, ← hchecked]
  simp only [sliceChecked, checked_length hlen, hfirst, hlast, hcut, Option.bind_eq_bind,
    Option.bind_some]

/-- **The element is the one at the position**, if there is one, and no check fails. -/
theorem elementChecked_eq (hlen : data.length < 2 ^ 63) (index : Int64) :
    elementChecked data index = some (element data index) ∧
      element data index =
        if 0 ≤ position data.length index then data[(position data.length index).toNat]?
        else none := by
  have hsize := toInt_length hlen
  obtain ⟨hnormalized, hi⟩ := normalizeIndexChecked_eq hsize index
  -- the test on machine integers is the one on positions
  have hout : (normalizeIndex index (Int64.ofNat data.length) < 0 ∨
      normalizeIndex index (Int64.ofNat data.length) ≥ Int64.ofNat data.length) ↔
      position data.length index < 0 ∨ data.length ≤ position data.length index := by
    simp only [ge_iff_le, Int64.lt_iff_toInt_lt, Int64.le_iff_toInt_le, hsize, hi,
      Int64.toInt_zero]
  simp only [elementChecked, checked_length hlen, hnormalized, Option.bind_eq_bind,
    Option.bind_some]
  unfold element
  by_cases hcond : normalizeIndex index (Int64.ofNat data.length) < 0 ∨
      normalizeIndex index (Int64.ofNat data.length) ≥ Int64.ofNat data.length
  · have hbeyond := hout.mp hcond
    have hnone : (if 0 ≤ position data.length index then
        data[(position data.length index).toNat]? else none) = none := by
      split_ifs
      · exact List.getElem?_eq_none (by omega)
      · rfl
    rw [if_pos hcond, hnone]
    simp only [if_pos hcond, and_self]
  · have hin := mt hout.mpr hcond
    have hpos : 0 ≤ position data.length index := by omega
    have hlt : (position data.length index).toNat < data.length := by omega
    rw [if_neg hcond, if_pos hpos]
    simp only [if_neg hcond, hi, List.getElem?_eq_getElem hlt, Option.map_some, and_self]

end Redix
