import Redix.Resp.Basic
import Mathlib.Tactic.Tauto

/-!
# The RESP grammar, and that the parser decides it

`Message b v` is the grammar of one RESP message: the byte string `b` denotes
the value `v`. It is stated without positions or cursors. The parser is related
to it in both directions:

- `parseAt_message` (completeness): a message standing anywhere in a buffer is
  parsed from its first byte, whatever precedes and follows it;
- `parseAt_sound`: a `Complete` verdict is a message standing at that position.

Both go through one equation per type byte (`parseAt_simple` … `parseAt_array`)
that reads a parse step off the buffer's shape at `pos`: the type byte, its line
up to the first CR LF, and the tail. Stability of verdicts under more input is
then a corollary for `Complete` (the message is still there) and one more
induction for `Error` (`parseAt_error_append`); with progress they make the
parser an instance of `Framing.Parser` (`respFraming`).
-/

namespace Redix

/-! ## Lines and the first CR LF -/

@[simp] theorem crlf_length : crlf.length = 2 := rfl

/-- A line end is where a carriage return is before a line feed. -/
theorem noCrlf_cons_iff {c : UInt8} {line : Bytes} :
    NoCrlf (c :: line) ↔ ¬ (c = 13 ∧ line.head? = some 10) ∧ NoCrlf line := by
  unfold NoCrlf
  rw [List.infix_cons_iff, not_or]
  refine and_congr_left' (not_congr ?_)
  cases line with
  | nil => simp [crlf]
  | cons d line => simp [crlf, List.cons_prefix_cons, eq_comm]

/-- The search from the start of a line finds the line's end. -/
theorem findCrlf_line (tail : Bytes) :
    ∀ {line : Bytes} (pre : Bytes), NoCrlf line →
      findCrlf (pre ++ (line ++ (crlf ++ tail))) pre.length =
        some (pre.length + line.length)
  | [], pre, _ => by
    rw [findCrlf, dif_pos (by simp [crlf])]
    simp [crlf]
  | c :: line, pre, h => by
    obtain ⟨hc, hline⟩ := noCrlf_cons_iff.mp h
    have ih := findCrlf_line tail (pre ++ [c]) hline
    rw [findCrlf, dif_pos (by simp [crlf]), if_neg]
    · simpa [Nat.add_assoc, Nat.add_comm 1] using ih
    · cases line with
      | nil => simp [crlf]
      | cons d line => simpa using hc

/-- What the search finds is the end of a line. -/
theorem findCrlf_some {buf : Bytes} {i j : Nat} (h : findCrlf buf i = some j) :
    ∃ line tail, buf.drop i = line ++ (crlf ++ tail) ∧ NoCrlf line := by
  fun_induction findCrlf buf i with
  | case1 i hlt heq =>
    refine ⟨[], buf.drop (i + 2), ?_, by decide⟩
    rw [List.drop_eq_getElem_cons (by omega), List.drop_eq_getElem_cons hlt,
      heq.1, heq.2]
    rfl
  | case2 i hlt hne ih =>
    obtain ⟨line, tail, hdrop, hline⟩ := ih h
    refine ⟨buf[i] :: line, tail, ?_, noCrlf_cons_iff.mpr ⟨?_, hline⟩⟩
    · rw [List.drop_eq_getElem_cons (by omega), hdrop]
      rfl
    · -- the line starts with the byte after `i`, unless it is empty
      rintro ⟨hcr, hlf⟩
      rw [List.drop_eq_getElem_cons hlt] at hdrop
      cases line with
      | nil => cases hlf
      | cons d line =>
        refine hne ⟨hcr, ?_⟩
        rw [(List.cons.inj hdrop).1]
        exact Option.some.inj hlf
  | case3 i hge => cases h

/-! ## The grammar -/

/-- `-?[0-9]+` with its value, which is in the 64-bit range. -/
def IntText (text : Bytes) (n : Int64) : Prop :=
  Decimal.Numeral true text n.toInt

/-- **The grammar of RESP messages**: `Message b v` when `b` is one whole
message and denotes `v`. -/
inductive Message : Bytes → RespValue → Prop
  /-- `+line` -/
  | simple {line : Bytes} (hline : NoCrlf line) :
      Message (43 :: (line ++ crlf)) (.string line)
  /-- `-line` -/
  | error {line : Bytes} (hline : NoCrlf line) :
      Message (45 :: (line ++ crlf)) (.error line)
  /-- `:int` -/
  | integer {text : Bytes} {n : Int64} (hn : IntText text n) :
      Message (58 :: (text ++ crlf)) (.integer n)
  /-- `$-1` -/
  | nullBulk {text : Bytes} (hn : IntText text (-1)) :
      Message (36 :: (text ++ crlf)) .null
  /-- `$n`, `n` arbitrary bytes -/
  | bulk {text payload : Bytes} {n : Int64} (hn : IntText text n)
      (hlen : n.toInt = payload.length) :
      Message (36 :: (text ++ crlf ++ (payload ++ crlf))) (.string payload)
  /-- `*-1` -/
  | nullArray {text : Bytes} (hn : IntText text (-1)) :
      Message (42 :: (text ++ crlf)) .null
  /-- `*n`, `n` messages -/
  | array {text : Bytes} {n : Int64} {parts : List (Bytes × RespValue)}
      (hn : IntText text n) (hlen : n.toInt = parts.length)
      (hparts : ∀ p ∈ parts, Message p.1 p.2) :
      Message (42 :: (text ++ crlf ++ (parts.map Prod.fst).flatten))
        (.array (parts.map Prod.snd))

/-- `parse_i64` accepts exactly the 64-bit numerals. -/
theorem parseI64_eq_some {s : Bytes} {n : Int64} :
    parseI64 s = some n ↔ IntText s n := by
  unfold parseI64 IntText
  constructor
  · intro h
    split_ifs at h
    split at h
    · rename_i v hread
      obtain ⟨hnum, hlo, hhi⟩ := Decimal.fromChars_whole_iff.mp hread
      have hv : (Int64.ofInt v).toInt = v :=
        Int64.toInt_ofInt_of_le hlo (Int.lt_of_le_sub_one hhi)
      rw [← Option.some.inj h, hv]
      exact hnum
    · cases h
  · intro h
    rw [if_neg h.ne_nil, Decimal.fromChars_whole_iff.mpr ⟨h, inRange_toInt n⟩]
    simp

/-- A numeral contains no CR, so no line end. -/
theorem IntText.noCrlf {text : Bytes} {n : Int64} (h : IntText text n) :
    NoCrlf text := by
  intro hin
  have hmem : (13 : UInt8) ∈ text := hin.subset (by simp [crlf])
  rcases h.byte hmem with h | h
  · exact absurd h (by decide)
  · exact absurd h (by decide)

/-! ## One parse step, read off the buffer's shape

The buffer is `pre ++ t :: (line ++ (crlf ++ tail))` and the position is the
length of `pre`. -/

section step

variable (pre tail : Bytes) {line : Bytes}

/-- The line end is found behind the line. -/
theorem findCrlf_at (t : UInt8) (hline : NoCrlf line) :
    findCrlf (pre ++ t :: (line ++ (crlf ++ tail))) (pre.length + 1) =
      some (pre.length + 1 + line.length) := by
  simpa using findCrlf_line tail (pre ++ [t]) hline

/-- What is before the line end is the line. -/
theorem readString_at (t : UInt8) :
    readString (pre ++ t :: (line ++ (crlf ++ tail))) (pre.length + 1)
      (pre.length + 1 + line.length) = line := by
  simp [readString]

/-- The case of a simple string. -/
theorem parseAt_simple (hline : NoCrlf line) :
    parseAt (pre ++ 43 :: (line ++ (crlf ++ tail))) pre.length =
      .complete (.string line) (line.length + 3) := by
  rw [parseAt, dif_pos (by simp), List.getElem_append_right (Nat.le_refl _)]
  simp only [Nat.sub_self, List.getElem_cons_zero, findCrlf_at pre tail 43 hline,
    readString_at, if_true]
  congr 1
  omega

/-- The case of an error. -/
theorem parseAt_errorLine (hline : NoCrlf line) :
    parseAt (pre ++ 45 :: (line ++ (crlf ++ tail))) pre.length =
      .complete (.error line) (line.length + 3) := by
  rw [parseAt, dif_pos (by simp), List.getElem_append_right (Nat.le_refl _)]
  simp only [Nat.sub_self, List.getElem_cons_zero, findCrlf_at pre tail 45 hline,
    readString_at, if_true]
  rw [if_neg (by decide)]
  congr 1
  omega

/-- The case of an integer. -/
theorem parseAt_integer (hline : NoCrlf line) :
    parseAt (pre ++ 58 :: (line ++ (crlf ++ tail))) pre.length =
      match parseI64 line with
      | none => .error
      | some n => .complete (.integer n) (line.length + 3) := by
  have hlen : pre.length + 1 + line.length + 2 - pre.length = line.length + 3 := by
    omega
  rw [parseAt, dif_pos (by simp), List.getElem_append_right (Nat.le_refl _)]
  simp only [Nat.sub_self, List.getElem_cons_zero, findCrlf_at pre tail 58 hline,
    readString_at, if_true, hlen]
  refine ((if_neg (by decide)).trans (if_neg (by decide))).trans ?_
  cases parseI64 line <;> rfl

/-- The payload's terminator test, as a slice. -/
theorem crlf_at_iff {buf : Bytes} {i : Nat} (hi : i < buf.length)
    (hnext : i + 1 < buf.length) :
    (buf[i] ≠ 13 ∨ buf[i + 1] ≠ 10) ↔ ¬ (buf.drop i).take 2 = crlf := by
  rw [List.drop_eq_getElem_cons hi, List.drop_eq_getElem_cons hnext]
  simp only [crlf, List.take_succ_cons, List.take_zero, List.cons.injEq, and_true]
  exact not_and_or.symm

/-- The bulk payload behind a header `head`, in terms of the tail alone. -/
theorem bulk_payload (head : Bytes) (k consumed : Nat) :
    (if hend : head.length + k + 2 > (head ++ tail).length then
        (.incomplete : ParseResult)
      else if (head ++ tail)[head.length + k] ≠ 13 ∨
          (head ++ tail)[head.length + k + 1] ≠ 10 then .error
      else
        .complete (.string (readString (head ++ tail) head.length (head.length + k)))
          consumed) =
      if tail.length < k + 2 then .incomplete
      else if ¬ (tail.drop k).take 2 = crlf then .error
      else .complete (.string (tail.take k)) consumed := by
  by_cases hend : tail.length < k + 2
  · rw [if_pos hend, dif_pos (by rw [List.length_append]; omega)]
  · have hlt : head.length + k + 1 < (head ++ tail).length := by
      rw [List.length_append]
      omega
    have hdrop : (head ++ tail).drop (head.length + k) = tail.drop k := by
      rw [← List.drop_drop, List.drop_left]
    have hread : readString (head ++ tail) head.length (head.length + k) =
        tail.take k := by
      simp [readString]
    rw [if_neg hend, dif_neg (by rw [List.length_append]; omega), hread]
    simp only [crlf_at_iff (Nat.lt_of_succ_lt hlt) hlt, hdrop]

/-- The case of a bulk string. -/
theorem parseAt_bulk (hline : NoCrlf line) :
    parseAt (pre ++ 36 :: (line ++ (crlf ++ tail))) pre.length =
      match parseI64 line with
      | none => .error
      | some len =>
        if len < -1 then .error
        else if len = -1 then .complete .null (line.length + 3)
        else if tail.length < len.toInt.toNat + 2 then .incomplete
        else if ¬ (tail.drop len.toInt.toNat).take 2 = crlf then .error
        else
          .complete (.string (tail.take len.toInt.toNat))
            (line.length + 3 + (len.toInt.toNat + 2)) := by
  have hlen : pre.length + 1 + line.length + 2 - pre.length = line.length + 3 := by
    omega
  rw [parseAt, dif_pos (by simp), List.getElem_append_right (Nat.le_refl _)]
  simp only [Nat.sub_self, List.getElem_cons_zero, findCrlf_at pre tail 36 hline,
    readString_at, if_true, hlen]
  rw [if_neg (by decide), if_neg (by decide), if_neg (by decide)]
  cases parseI64 line with
  | none => rfl
  | some len =>
    -- everything from here on happens behind the header
    have hbuf : pre ++ 36 :: (line ++ (crlf ++ tail)) =
        (pre ++ 36 :: (line ++ crlf)) ++ tail := by simp
    have hhead : pre.length + 1 + line.length + 2 =
        (pre ++ 36 :: (line ++ crlf)).length := by
      simp only [List.length_append, List.length_cons, crlf_length]
      omega
    have hconsumed : (pre ++ 36 :: (line ++ crlf)).length + len.toInt.toNat + 2 -
        pre.length = line.length + 3 + (len.toInt.toNat + 2) := by
      simp only [List.length_append, List.length_cons, crlf_length]
      omega
    simp only [hbuf, hhead, hconsumed, bulk_payload]

/-- The case of an array. -/
theorem parseAt_array (hline : NoCrlf line) :
    parseAt (pre ++ 42 :: (line ++ (crlf ++ tail))) pre.length =
      match parseI64 line with
      | none => .error
      | some len =>
        if len < -1 then .error
        else if len = -1 then .complete .null (line.length + 3)
        else
          parseElems (pre ++ 42 :: (line ++ (crlf ++ tail))) pre.length
            (pre.length + (line.length + 3)) len.toInt.toNat [] := by
  have hlen : pre.length + 1 + line.length + 2 - pre.length = line.length + 3 := by
    omega
  have hcur : pre.length + 1 + line.length + 2 = pre.length + (line.length + 3) := by
    omega
  rw [parseAt, dif_pos (by simp), List.getElem_append_right (Nat.le_refl _)]
  simp only [Nat.sub_self, List.getElem_cons_zero, if_true]
  rw [if_neg (by decide), if_neg (by decide), if_neg (by decide),
    if_neg (by decide)]
  split
  · rename_i hnone
    rw [findCrlf_at pre tail 42 hline] at hnone
    cases hnone
  · rename_i lineEnd hsome
    rw [findCrlf_at pre tail 42 hline] at hsome
    obtain rfl := Option.some.inj hsome
    cases hint : parseI64 line with
    | none => simp only [readString_at, hint]
    | some k =>
      simp only [readString_at, hint]
      rw [hlen, hcur]

end step

/-- Before its line is complete, a message of any kind is `Incomplete`; any
other byte is an `Error` at once. -/
theorem parseAt_noLine {buf : Bytes} {pos : Nat} (hpos : pos < buf.length)
    (hfind : findCrlf buf (pos + 1) = none) :
    parseAt buf pos =
      if buf[pos] = 43 ∨ buf[pos] = 45 ∨ buf[pos] = 58 ∨ buf[pos] = 36 ∨
        buf[pos] = 42 then .incomplete else .error := by
  rw [parseAt, dif_pos hpos]
  simp only [hfind]
  by_cases harr : buf[pos] = 42
  · rw [if_neg (by rw [harr]; decide), if_neg (by rw [harr]; decide),
      if_neg (by rw [harr]; decide), if_neg (by rw [harr]; decide), if_pos harr]
    split <;> simp_all
  · simp only [harr, if_false, or_false]
    split_ifs <;> simp_all

/-- A byte that opens no message is an `Error` at once. -/
theorem parseAt_badType {buf : Bytes} {pos : Nat} (hpos : pos < buf.length)
    (h : ¬ (buf[pos] = 43 ∨ buf[pos] = 45 ∨ buf[pos] = 58 ∨ buf[pos] = 36 ∨
      buf[pos] = 42)) : parseAt buf pos = .error := by
  simp only [not_or] at h
  rw [parseAt, dif_pos hpos]
  simp only [h, if_false]

/-- There is no message at the end of the buffer. -/
theorem parseAt_end {buf : Bytes} {pos : Nat} (hpos : buf.length ≤ pos) :
    parseAt buf pos = .incomplete := by
  rw [parseAt, dif_neg (by omega)]

/-- A buffer with a line at `pos` has the shape the step equations speak of. -/
theorem shape_of_findCrlf {buf : Bytes} {pos lineEnd : Nat}
    (hpos : pos < buf.length) (h : findCrlf buf (pos + 1) = some lineEnd) :
    ∃ pre t line tail, buf = pre ++ t :: (line ++ (crlf ++ tail)) ∧
      pos = pre.length ∧ NoCrlf line := by
  obtain ⟨line, tail, hdrop, hline⟩ := findCrlf_some h
  refine ⟨buf.take pos, buf[pos], line, tail, ?_,
    by rw [List.length_take]; omega, hline⟩
  rw [← hdrop, ← List.drop_eq_getElem_cons hpos, List.take_append_drop]

/-- A first byte that is none of the five is an error. -/
theorem badType_at {pre rest : Bytes} {t : UInt8}
    (h : ¬ (t = 43 ∨ t = 45 ∨ t = 58 ∨ t = 36 ∨ t = 42)) :
    parseAt (pre ++ t :: rest) pre.length = .error :=
  parseAt_badType (by simp) (by simpa using h)

/-- The branches of the parser on its first byte. -/
theorem typeByte_cases (t : UInt8) :
    t = 43 ∨ t = 45 ∨ t = 58 ∨ t = 36 ∨ t = 42 ∨
      ¬ (t = 43 ∨ t = 45 ∨ t = 58 ∨ t = 36 ∨ t = 42) := by
  tauto

/-- A bulk header that is neither malformed nor null announces a payload. -/
theorem int64_nonneg {len : Int64} (hlt : ¬ len < -1) (hne : ¬ len = -1) :
    0 ≤ len.toInt := by
  rw [Int64.lt_iff_toInt_lt] at hlt
  rw [← Int64.toInt_inj] at hne
  have h1 : (-1 : Int64).toInt = -1 := by decide
  rw [h1] at hlt hne
  omega

/-- A length is neither below `-1` nor `-1`. -/
theorem length_not_lt {n : Int64} {k : Nat} (h : n.toInt = k) : ¬ n < -1 := by
  have h1 : (-1 : Int64).toInt = -1 := by decide
  rw [Int64.lt_iff_toInt_lt, h1]
  omega

/-- A length that is not negative is not the one of null. -/
theorem length_not_null {n : Int64} {k : Nat} (h : n.toInt = k) : ¬ n = -1 := by
  have h1 : (-1 : Int64).toInt = -1 := by decide
  rw [← Int64.toInt_inj, h1]
  omega

/-! ## Soundness: what is accepted is a message -/

/-- The first `n` bytes are a message that denotes `v`. -/
def Front (bytes : Bytes) (v : RespValue) (n : Nat) : Prop :=
  ∃ b tail, bytes = b ++ tail ∧ b.length = n ∧ Message b v

/-- A message of one line, with what follows it. -/
theorem front_line {t : UInt8} {line tail : Bytes} {v : RespValue}
    (h : Message (t :: (line ++ crlf)) v) :
    Front (t :: (line ++ (crlf ++ tail))) v (line.length + 3) :=
  ⟨t :: (line ++ crlf), tail, by simp, by simp [crlf], h⟩

/-- The case of an integer is sound. -/
theorem integer_sound {pre line tail : Bytes} {v : RespValue} {n : Nat}
    (hline : NoCrlf line)
    (h : parseAt (pre ++ 58 :: (line ++ (crlf ++ tail))) pre.length = .complete v n) :
    Front (58 :: (line ++ (crlf ++ tail))) v n := by
  rw [parseAt_integer pre tail hline] at h
  cases hint : parseI64 line with
  | none => simp only [hint] at h; cases h
  | some k =>
    simp only [hint] at h
    cases h
    exact front_line (.integer (parseI64_eq_some.mp hint))

/-- The case of a bulk string is sound. -/
theorem bulk_sound {pre line tail : Bytes} {v : RespValue} {n : Nat}
    (hline : NoCrlf line)
    (h : parseAt (pre ++ 36 :: (line ++ (crlf ++ tail))) pre.length = .complete v n) :
    Front (36 :: (line ++ (crlf ++ tail))) v n := by
  rw [parseAt_bulk pre tail hline] at h
  cases hint : parseI64 line with
  | none => simp only [hint] at h; cases h
  | some k =>
    have htext : IntText line k := parseI64_eq_some.mp hint
    simp only [hint] at h
    split_ifs at h with hneg hnull hend hterm
    · -- `$-1`
      cases h
      subst hnull
      exact front_line (.nullBulk htext)
    · -- the payload is there, and a line end behind it
      cases h
      have hnonneg := int64_nonneg hneg hnull
      generalize hK : k.toInt.toNat = K at hend hterm
      have htail : tail = tail.take K ++ (crlf ++ tail.drop (K + 2)) := by
        rw [← hterm, ← List.drop_drop, List.take_append_drop, List.take_append_drop]
      have hpay : (tail.take K).length = K := List.length_take_of_le (by omega)
      refine ⟨36 :: (line ++ crlf ++ (tail.take K ++ crlf)), tail.drop (K + 2), ?_, ?_,
        .bulk htext (by omega)⟩
      · conv_lhs => rw [htail]
        simp
      · simp only [List.length_cons, List.length_append, hpay, crlf, List.length_nil]
        omega

/-- The element loop collects as many messages as it was asked for, provided
the recursive calls are sound. -/
theorem parseElems_sound {buf : Bytes} {pos start : Nat}
    (hsound : ∀ {cursor v n}, start ≤ cursor → parseAt buf cursor = .complete v n →
      Front (buf.drop cursor) v n) :
    ∀ {k cursor : Nat} {vs : List RespValue} {v : RespValue} {n : Nat},
      start ≤ cursor → parseElems buf pos cursor k vs = .complete v n →
      ∃ (parts : List (Bytes × RespValue)) (tail : Bytes),
        buf.drop cursor = (parts.map Prod.fst).flatten ++ tail ∧
        parts.length = k ∧ (∀ p ∈ parts, Message p.1 p.2) ∧
        v = .array (vs ++ parts.map Prod.snd) ∧
        n = cursor + (parts.map Prod.fst).flatten.length - pos
  | 0, cursor, vs, v, n, _, h => by
    rw [parseElems] at h
    cases h
    exact ⟨[], buf.drop cursor, rfl, rfl, by simp, by simp, by simp⟩
  | k + 1, cursor, vs, v, n, hstart, h => by
    rw [parseElems] at h
    cases hchild : parseAt buf cursor with
    | complete value consumed =>
      simp only [hchild] at h
      obtain ⟨b, tail, hdrop, hlen, hmsg⟩ := hsound hstart hchild
      -- the rest of the loop starts where the child's message ends
      obtain ⟨parts, tail', hdrop', hcount, hparts, rfl, rfl⟩ :=
        parseElems_sound hsound (Nat.le_add_right_of_le hstart) h
      refine ⟨(b, value) :: parts, tail', ?_, by simp [hcount], ?_, by simp, ?_⟩
      · rw [← List.drop_drop, hdrop, ← hlen, List.drop_left] at hdrop'
        rw [hdrop, hdrop']
        simp
      · exact List.forall_mem_cons.mpr ⟨hmsg, hparts⟩
      · rw [List.map_cons, List.flatten_cons, List.length_append, hlen, Nat.add_assoc]
    | incomplete => simp only [hchild] at h; cases h
    | error => simp only [hchild] at h; cases h

/-- The case of an array is sound, if the calls for the elements are. -/
theorem array_sound {pre line tail : Bytes} {v : RespValue} {n : Nat}
    (hline : NoCrlf line)
    (hloop : ∀ {cursor v n}, pre.length + 1 ≤ cursor →
      parseAt (pre ++ 42 :: (line ++ (crlf ++ tail))) cursor = .complete v n →
      Front ((pre ++ 42 :: (line ++ (crlf ++ tail))).drop cursor) v n)
    (h : parseAt (pre ++ 42 :: (line ++ (crlf ++ tail))) pre.length = .complete v n) :
    Front (42 :: (line ++ (crlf ++ tail))) v n := by
  rw [parseAt_array pre tail hline] at h
  cases hint : parseI64 line with
  | none => simp only [hint] at h; cases h
  | some k =>
    have htext : IntText line k := parseI64_eq_some.mp hint
    simp only [hint] at h
    split_ifs at h with hneg hnull
    · -- `*-1`
      cases h
      subst hnull
      exact front_line (.nullArray htext)
    · -- the loop's messages follow the header line
      have hnonneg := int64_nonneg hneg hnull
      obtain ⟨parts, tail', hdrop, hcount, hparts, rfl, rfl⟩ :=
        parseElems_sound hloop (by omega) h
      have htail : tail = (parts.map Prod.fst).flatten ++ tail' := by
        rw [← hdrop, ← List.drop_drop, List.drop_left]
        simp [crlf]
      refine ⟨42 :: (line ++ crlf ++ (parts.map Prod.fst).flatten), tail', ?_, ?_,
        .array htext (by omega) hparts⟩
      · rw [htail]
        simp
      · simp only [List.length_append, List.length_cons, crlf_length]
        omega

/-- **Soundness**: a `Complete` verdict with `consumed = n` means that the `n`
bytes from `pos` on are a message denoting the value. -/
theorem parseAt_sound {buf : Bytes} {pos : Nat} {v : RespValue} {n : Nat}
    (h : parseAt buf pos = .complete v n) : Front (buf.drop pos) v n := by
  -- on the number of bytes from `pos` on: an array's elements start further right
  induction hm : buf.length - pos using Nat.strongRecOn generalizing pos v n with
  | ind m ih =>
    rcases Nat.lt_or_ge pos buf.length with hpos | hpos
    swap
    · rw [parseAt_end hpos] at h
      cases h
    cases hfind : findCrlf buf (pos + 1) with
    | none =>
      rw [parseAt_noLine hpos hfind] at h
      split_ifs at h
    | some lineEnd =>
      obtain ⟨pre, t, line, tail, rfl, rfl, hline⟩ := shape_of_findCrlf hpos hfind
      rw [List.drop_left]
      rcases typeByte_cases t with rfl | rfl | rfl | rfl | rfl | hbad
      · rw [parseAt_simple pre tail hline] at h
        cases h
        exact front_line (.simple hline)
      · rw [parseAt_errorLine pre tail hline] at h
        cases h
        exact front_line (.error hline)
      · exact integer_sound hline h
      · exact bulk_sound hline h
      · exact array_sound hline (fun hc hchild => ih _ (by omega) hchild rfl) h
      · rw [badType_at hbad] at h
        cases h

/-! ## Completeness: every message is accepted, wherever it stands -/

/-- The element loop accepts a concatenation of messages, provided each is
accepted on its own. -/
theorem parseElems_message :
    ∀ {parts : List (Bytes × RespValue)},
      (∀ p ∈ parts, ∀ pre tail, parseAt (pre ++ (p.1 ++ tail)) pre.length =
        .complete p.2 p.1.length) →
      ∀ (pre tail : Bytes) (pos : Nat) (vs : List RespValue),
        parseElems (pre ++ ((parts.map Prod.fst).flatten ++ tail)) pos pre.length
          parts.length vs =
        .complete (.array (vs ++ parts.map Prod.snd))
          (pre.length + (parts.map Prod.fst).flatten.length - pos)
  | [], _, pre, tail, pos, vs => by
    rw [List.length_nil, parseElems]
    simp
  | p :: parts, h, pre, tail, pos, vs => by
    have hp := h p List.mem_cons_self pre ((parts.map Prod.fst).flatten ++ tail)
    have ih := parseElems_message (fun q hq => h q (List.mem_cons_of_mem p hq))
      (pre ++ p.1) tail pos (vs ++ [p.2])
    rw [List.length_cons, parseElems]
    simp only [List.map_cons, List.flatten_cons, List.append_assoc, hp]
    simpa [Nat.add_assoc] using ih

/-- **Completeness**: a message is parsed wherever it stands and whatever
follows it, and exactly its bytes are consumed. -/
theorem parseAt_message {b : Bytes} {v : RespValue} (h : Message b v) :
    ∀ pre tail : Bytes,
      parseAt (pre ++ (b ++ tail)) pre.length = .complete v b.length := by
  -- along the grammar: each rule has the equation that parses it in place
  induction h with
  | simple hline =>
    intro pre tail
    simpa [crlf] using parseAt_simple pre tail hline
  | error hline =>
    intro pre tail
    simpa [crlf] using parseAt_errorLine pre tail hline
  | integer hn =>
    intro pre tail
    have hstep := parseAt_integer pre tail hn.noCrlf
    rw [parseI64_eq_some.mpr hn] at hstep
    simpa [crlf] using hstep
  | nullBulk hn =>
    intro pre tail
    have hstep := parseAt_bulk pre tail hn.noCrlf
    rw [parseI64_eq_some.mpr hn] at hstep
    simpa [crlf] using hstep
  | @bulk text payload n hn hlen =>
    intro pre tail
    have hstep := parseAt_bulk pre (payload ++ (crlf ++ tail)) hn.noCrlf
    have hnat : n.toInt.toNat = payload.length := by omega
    rw [parseI64_eq_some.mpr hn] at hstep
    simp only [hnat] at hstep
    rw [if_neg (length_not_lt hlen), if_neg (length_not_null hlen),
      if_neg (by simp [crlf]), if_neg (by simp [crlf]), List.take_left] at hstep
    have hconsumed : (36 :: (text ++ crlf ++ (payload ++ crlf))).length =
        text.length + 3 + (payload.length + 2) := by
      simp only [List.length_append, List.length_cons, crlf_length]
      omega
    rw [hconsumed, ← hstep]
    simp
  | nullArray hn =>
    intro pre tail
    have hstep := parseAt_array pre tail hn.noCrlf
    rw [parseI64_eq_some.mpr hn] at hstep
    simpa [crlf] using hstep
  | @array text n parts hn hlen hparts ih =>
    intro pre tail
    have hstep := parseAt_array pre ((parts.map Prod.fst).flatten ++ tail) hn.noCrlf
    have hnat : n.toInt.toNat = parts.length := by omega
    rw [parseI64_eq_some.mpr hn] at hstep
    simp only [hnat] at hstep
    rw [if_neg (length_not_lt hlen), if_neg (length_not_null hlen)] at hstep
    have hloop := parseElems_message ih (pre ++ 42 :: (text ++ crlf)) tail pre.length []
    have hshape : pre ++ 42 :: (text ++ crlf) ++ ((parts.map Prod.fst).flatten ++ tail) =
        pre ++ 42 :: (text ++ (crlf ++ ((parts.map Prod.fst).flatten ++ tail))) := by
      simp
    have hcursor : (pre ++ 42 :: (text ++ crlf)).length =
        pre.length + (text.length + 3) := by simp [crlf]
    have hconsumed : pre.length + (text.length + 3) + (parts.map Prod.fst).flatten.length -
        pre.length = (42 :: (text ++ crlf ++ (parts.map Prod.fst).flatten)).length := by
      simp only [List.length_append, List.length_cons, crlf_length]
      omega
    rw [hshape, hcursor, hconsumed] at hloop
    rw [hloop] at hstep
    simpa using hstep

/-! ## Uniqueness and bounds -/

/-- Every message takes at least three bytes: its type byte and a line end. -/
theorem Message.three_le {b : Bytes} {v : RespValue} (h : Message b v) :
    3 ≤ b.length := by
  cases h <;> simp [crlf] <;> omega

/-- At most one message starts at the front of a byte string, and it denotes one
value: RESP is prefix-free and unambiguous. -/
theorem Message.unique {b b' tail tail' : Bytes} {v v' : RespValue}
    (h : Message b v) (h' : Message b' v') (heq : b ++ tail = b' ++ tail') :
    b = b' ∧ v = v' := by
  have hp := parseAt_message h [] tail
  have hp' := parseAt_message h' [] tail'
  rw [heq, hp'] at hp
  injection hp with hv hlen
  exact ⟨List.append_inj_left heq hlen.symm, hv.symm⟩

/-! ## Stability under more input -/

/-- A `Complete` verdict is not changed by appending bytes. -/
theorem parseAt_complete_append {buf : Bytes} {pos : Nat} {v : RespValue} {n : Nat}
    (h : parseAt buf pos = .complete v n) (more : Bytes) :
    parseAt (buf ++ more) pos = .complete v n := by
  obtain ⟨b, tail, hdrop, rfl, hmsg⟩ := parseAt_sound h
  have hpos : pos ≤ buf.length := by
    by_contra hlt
    rw [List.drop_of_length_le (by omega)] at hdrop
    have hthree := hmsg.three_le
    have hlen := congrArg List.length hdrop
    rw [List.length_nil, List.length_append] at hlen
    omega
  have hshape : buf ++ more = buf.take pos ++ (b ++ (tail ++ more)) := by
    rw [← List.append_assoc b, ← hdrop, ← List.append_assoc, List.take_append_drop]
  have := parseAt_message hmsg (buf.take pos) (tail ++ more)
  rwa [← hshape, List.length_take_of_le hpos] at this

/-- The element loop's errors are stable, provided those of the recursive calls
are. -/
theorem parseElems_error_append {buf more : Bytes} {pos start : Nat}
    (herror : ∀ {cursor}, start ≤ cursor → parseAt buf cursor = .error →
      parseAt (buf ++ more) cursor = .error) :
    ∀ {k cursor : Nat} {vs : List RespValue}, start ≤ cursor →
      parseElems buf pos cursor k vs = .error →
      parseElems (buf ++ more) pos cursor k vs = .error
  | 0, cursor, vs, _, h => by
    rw [parseElems] at h
    cases h
  | k + 1, cursor, vs, hstart, h => by
    rw [parseElems] at h ⊢
    cases hchild : parseAt buf cursor with
    | complete value consumed =>
      simp only [hchild, parseAt_complete_append hchild more] at h ⊢
      exact parseElems_error_append herror (Nat.le_add_right_of_le hstart) h
    | incomplete => simp only [hchild] at h; cases h
    | error => simp only [herror hstart hchild]

/-- An integer that is malformed stays so with more behind it. -/
theorem integer_error_append {pre line tail : Bytes} (hline : NoCrlf line)
    (h : parseAt (pre ++ 58 :: (line ++ (crlf ++ tail))) pre.length = .error)
    (more : Bytes) :
    parseAt (pre ++ 58 :: (line ++ (crlf ++ (tail ++ more)))) pre.length = .error := by
  rw [parseAt_integer pre tail hline] at h
  rw [parseAt_integer pre (tail ++ more) hline]
  cases hint : parseI64 line with
  | none => rfl
  | some k => simp only [hint] at h; cases h

/-- A bulk string that is malformed stays so with more behind it. -/
theorem bulk_error_append {pre line tail : Bytes} (hline : NoCrlf line)
    (h : parseAt (pre ++ 36 :: (line ++ (crlf ++ tail))) pre.length = .error)
    (more : Bytes) :
    parseAt (pre ++ 36 :: (line ++ (crlf ++ (tail ++ more)))) pre.length = .error := by
  rw [parseAt_bulk pre tail hline] at h
  rw [parseAt_bulk pre (tail ++ more) hline]
  cases hint : parseI64 line with
  | none => rfl
  | some k =>
    simp only [hint] at h ⊢
    split_ifs at h with hneg hnull hend hterm
    · exact if_pos hneg
    · -- the terminator is wrong, and was already there
      rw [if_neg hneg, if_neg hnull, if_neg (by rw [List.length_append]; omega), if_pos]
      rwa [List.drop_append_of_le_length (by omega),
        List.take_append_of_le_length (by rw [List.length_drop]; omega)]

/-- An array that is malformed stays so with more behind it, if its elements do. -/
theorem array_error_append {pre line tail more : Bytes} (hline : NoCrlf line)
    (hloop : ∀ {cursor}, pre.length + 1 ≤ cursor →
      parseAt (pre ++ 42 :: (line ++ (crlf ++ tail))) cursor = .error →
      parseAt (pre ++ 42 :: (line ++ (crlf ++ tail)) ++ more) cursor = .error)
    (h : parseAt (pre ++ 42 :: (line ++ (crlf ++ tail))) pre.length = .error) :
    parseAt (pre ++ 42 :: (line ++ (crlf ++ (tail ++ more)))) pre.length = .error := by
  have hext : pre ++ 42 :: (line ++ (crlf ++ (tail ++ more))) =
      pre ++ 42 :: (line ++ (crlf ++ tail)) ++ more := by
    simp
  rw [parseAt_array pre tail hline] at h
  rw [parseAt_array pre (tail ++ more) hline, hext]
  cases hint : parseI64 line with
  | none => rfl
  | some k =>
    simp only [hint] at h ⊢
    -- the error is in the header, which is there already, or in an element
    split_ifs at h with hneg hnull
    · exact if_pos hneg
    · rw [if_neg hneg, if_neg hnull]
      exact parseElems_error_append hloop (by omega) h

/-- An `Error` verdict is not changed by appending bytes: no continuation can
repair a malformed message. -/
theorem parseAt_error_append {buf : Bytes} {pos : Nat}
    (h : parseAt buf pos = .error) (more : Bytes) :
    parseAt (buf ++ more) pos = .error := by
  -- the induction of `parseAt_sound`
  induction hm : buf.length - pos using Nat.strongRecOn generalizing pos with
  | ind m ih =>
    rcases Nat.lt_or_ge pos buf.length with hpos | hpos
    swap
    · rw [parseAt_end hpos] at h
      cases h
    cases hfind : findCrlf buf (pos + 1) with
    | none =>
      -- without a line the only error is the type byte's
      rw [parseAt_noLine hpos hfind] at h
      split_ifs at h with htype
      refine parseAt_badType (by rw [List.length_append]; omega) ?_
      rwa [List.getElem_append_left hpos]
    | some lineEnd =>
      obtain ⟨pre, t, line, tail, rfl, rfl, hline⟩ := shape_of_findCrlf hpos hfind
      have hext : pre ++ t :: (line ++ (crlf ++ tail)) ++ more =
          pre ++ t :: (line ++ (crlf ++ (tail ++ more))) := by
        simp
      rcases typeByte_cases t with rfl | rfl | rfl | rfl | rfl | hbad
      · rw [parseAt_simple pre tail hline] at h
        cases h
      · rw [parseAt_errorLine pre tail hline] at h
        cases h
      · rw [hext]
        exact integer_error_append hline h more
      · rw [hext]
        exact bulk_error_append hline h more
      · rw [hext]
        exact array_error_append hline (fun hc hchild => ih _ (by omega) hchild rfl) h
      · rw [hext]
        exact badType_at hbad

/-- The RESP parser at the front of its buffer, as an incremental parser. -/
def respFraming : Framing.Parser UInt8 RespValue where
  parse b := parseAt b 0
  parse_nil := parseAt_end (Nat.le_refl _)
  consumed_pos h := by
    obtain ⟨b, tail, -, rfl, hmsg⟩ := parseAt_sound h
    exact Nat.lt_of_lt_of_le (by omega) hmsg.three_le
  consumed_le h := by
    obtain ⟨b, tail, hdrop, rfl, -⟩ := parseAt_sound h
    rw [List.drop_zero] at hdrop
    rw [hdrop, List.length_append]
    omega
  complete_append h more := parseAt_complete_append h more
  error_append h more := parseAt_error_append h more

end Redix
