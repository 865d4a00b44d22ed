import Redix.Command.Effects
import Redix.Store.Ranges

/-!
# Range reads

`LRANGE` and `LINDEX` on a live list, for all signed 64-bit indices: the replies are those of
the window of the list that the indices say in the integers (`position`, `List.window`), and
none of the computations behind them overflows or leaves the list (`sliceChecked`,
`elementChecked`).
-/

namespace Redix

variable {now : UInt64} {s : Store} {key : Bytes} {e : Entry} {data : List Bytes}
  {startArg stopArg : Bytes} {start stop : Int64}

theorem dispatch_lrange (hlive : findLive now s.data key = some e) (hlist : e.value = .list data)
    (hstart : parseI64 startArg = some start) (hstop : parseI64 stopArg = some stop) :
    (dispatch now ⟨ascii "LRANGE", [key, startArg, stopArg]⟩ s).1 =
      stringArray (slice data start stop) := by
  have hrow : specTable.lookup (ascii "LRANGE") = some .lrange := rfl
  have hget : listValue.get? e.value = some data := (listValue.get?_eq_some _ data).mpr hlist
  rw [dispatch_eq hrow, Spec.lrange, serve_look, twoArgs, hstart, hstop]
  simp only [answered, hlive, Look.strings, Look.orDefault, Look.run, hget]
  exact bytes_strings _

theorem dispatch_lindex (hlive : findLive now s.data key = some e) (hlist : e.value = .list data)
    (hstart : parseI64 startArg = some start) :
    (dispatch now ⟨ascii "LINDEX", [key, startArg]⟩ s).1 =
      (element data start).elim respNullBulk respBulk := by
  have hrow : specTable.lookup (ascii "LINDEX") = some .lindex := rfl
  have hget : listValue.get? e.value = some data := (listValue.get?_eq_some _ data).mpr hlist
  rw [dispatch_eq hrow, Spec.lindex, serve_look, oneArg, signed, hstart]
  simp only [answered, hlive, Look.bulk?, Look.orDefault, Look.run, hget]
  cases element data start <;> rfl

theorem stringArray_singleton (value : Bytes) :
    stringArray [value] = ascii "*1" ++ crlf ++ respBulk value := by
  have hcount : Decimal.printNat 1 = ascii "1" := by decide
  show ascii "*" ++ Decimal.printNat 1 ++ crlf ++ (respBulk value ++ []) = _
  rw [hcount, List.append_nil]
  rfl

/-- An array of at most one string shows which. -/
theorem stringArray_eq_singleton {o : Option Bytes} {value : Bytes} :
    stringArray o.toList = stringArray [value] ↔ o = some value := by
  constructor
  · intro h
    cases o with
    | none =>
      -- the counts differ
      rw [stringArray_singleton] at h
      have hcount : stringArray [] = ascii "*0" ++ crlf := by decide
      rw [Option.toList_none, hcount] at h
      cases h
    | some value' =>
      rw [Option.toList_some, stringArray_singleton, stringArray_singleton] at h
      rw [respBulk_injective (List.append_cancel_left h)]
  · rintro rfl
    rfl

/-- A bulk string or null shows which. -/
theorem elim_respBulk_eq {o : Option Bytes} {value : Bytes} :
    o.elim respNullBulk respBulk = respBulk value ↔ o = some value := by
  constructor
  · intro h
    cases o with
    | none => exact absurd h.symm (respBulk_ne_null value)
    | some value' => rw [respBulk_injective h]
  · rintro rfl
    rfl

/-- **Range reads are exact.** For a live list and all signed 64-bit indices: `LRANGE` replies
the elements whose positions lie between the two that the indices say in the integers;
`LINDEX` replies the one at the position, or null if that is outside the list; so one yields a
value exactly if the other, at that index twice, yields it alone. None of the computations
overflows, nor does an index leave the list. -/
theorem ranges_exact (hlive : findLive now s.data key = some e) (hlist : e.value = .list data)
    (hlen : data.length < 2 ^ 63) (hstart : parseI64 startArg = some start)
    (hstop : parseI64 stopArg = some stop) :
    let first := position data.length start
    let last := position data.length stop
    let lrange := (dispatch now ⟨ascii "LRANGE", [key, startArg, stopArg]⟩ s).1
    let lindex := (dispatch now ⟨ascii "LINDEX", [key, startArg]⟩ s).1
    lrange = stringArray (data.window first last) ∧
    (∀ i (h : i < data.length), first = i → lindex = respBulk data[i]) ∧
    (¬ (0 ≤ first ∧ first < data.length) → lindex = respNullBulk) ∧
    (∀ value, lindex = respBulk value ↔
      (dispatch now ⟨ascii "LRANGE", [key, startArg, startArg]⟩ s).1 = stringArray [value]) ∧
    sliceChecked data start stop = some (data.window first last) ∧
    elementChecked data start = some (if 0 ≤ first then data[first.toNat]? else none) := by
  intro first last lrange lindex
  obtain ⟨hchecked, hslice⟩ := sliceChecked_eq hlen start stop
  obtain ⟨helementChecked, helement⟩ := elementChecked_eq hlen start
  have hlindex : lindex = (element data start).elim respNullBulk respBulk :=
    dispatch_lindex hlive hlist hstart
  rw [helement] at hlindex
  refine ⟨?_, fun i hi hfirst => ?_, fun hout => ?_, fun value => ?_, ?_, ?_⟩
  · rw [← hslice]
    exact dispatch_lrange hlive hlist hstart hstop
  · have hpos : 0 ≤ first := hfirst ▸ Int.natCast_nonneg i
    have htoNat : first.toNat = i := by rw [hfirst, Int.toNat_natCast]
    rw [hlindex, if_pos hpos, htoNat, List.getElem?_eq_getElem hi]
    rfl
  · have hnone : (if 0 ≤ first then data[first.toNat]? else none) = none := by
      split_ifs with hpos
      · exact List.getElem?_eq_none (by omega)
      · rfl
    rw [hlindex, hnone]
    rfl
  -- a range from an index to itself is the element there, if there is one
  · have hself := (sliceChecked_eq hlen start start).2
    have hwindow : data.window first first =
        (if 0 ≤ first then data[first.toNat]? else none).toList := by
      rw [List.window_self]
      split_ifs <;> rfl
    rw [hlindex, elim_respBulk_eq, dispatch_lrange hlive hlist hstart hstart, hself, hwindow,
      stringArray_eq_singleton]
  · rw [hchecked, hslice]
  · rw [helementChecked, helement]

/-- The smallest index there is, and one that counts from the back. -/
theorem ranges_exact_negative :
    let s := execAll
      [(1, ⟨ascii "RPUSH", [ascii "q", ascii "a", ascii "b", ascii "c"]⟩)] Store.empty
    (dispatch 2 ⟨ascii "LRANGE", [ascii "q", ascii "-9223372036854775808", ascii "-2"]⟩ s).1 =
      stringArray [ascii "a", ascii "b"] ∧
    (dispatch 2 ⟨ascii "LINDEX", [ascii "q", ascii "-9223372036854775808"]⟩ s).1 =
      respNullBulk := by
  intro s
  have hlive : findLive 2 s.data (ascii "q") =
      some ⟨.list [ascii "a", ascii "b", ascii "c"], 0⟩ := by decide
  have hsmallest : parseI64 (ascii "-9223372036854775808") = some (-9223372036854775808) := by
    decide
  have hsecond : parseI64 (ascii "-2") = some (-2) := by decide
  obtain ⟨hlrange, -, hnull, -⟩ := ranges_exact hlive rfl (by decide) hsmallest hsecond
  exact ⟨hlrange.trans (by decide), hnull (by decide)⟩

end Redix
