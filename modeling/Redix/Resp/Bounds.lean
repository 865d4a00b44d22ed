import Redix.Base.Checked
import Redix.Resp.Grammar

/-!
# The parser stays in its buffer

The functions of resp.cpp once more, with every index into the buffer and every computation on
`std::size_t` checked: one that is out of range or wraps gives no result. Nor does a call that
nests deeper than it is told to, or an array loop that takes more turns than there are bytes left
and one.

- `parseAtChecked`: `parse_at` with the checks;
- `parseAt_consumed`: a complete message takes three bytes at least, and no more than are left;
- `parseAtChecked_eq`: with as many levels as there are bytes left and one, none of the checks
  fails, whatever lengths the headers announce.
-/

namespace Redix

open Checked

/-! ## With checks -/

/-- A value of type `std::size_t`. -/
def sizeT (n : Nat) : Option Nat := fits (2 ^ 64) n

/-- Whether a CR LF pair starts at `i`; the second byte is read behind a CR only. -/
def crlfAtChecked (buf : Bytes) (i : Nat) : Option Bool := do
  let first ← buf[i]?
  if first = 13 then
    let next ← sizeT (i + 1)
    let second ← buf[next]?
    some (decide (second = 10))
  else some false

/-- `find_crlf` -/
def findCrlfChecked (buf : Bytes) (i : Nat) : Option (Option Nat) := do
  let _ ← sizeT (i + 1)
  if _h : i + 1 < buf.length then
    let found ← crlfAtChecked buf i
    if found then some (some i) else findCrlfChecked buf (i + 1)
  else some none
termination_by buf.length - i

/-- `read_string` -/
def readStringChecked (buf : Bytes) (start stop : Nat) : Option Bytes := do
  let count ← stop.psub start
  reads buf start count

/-- `stop + CRLF.size() - pos` -/
def consumedChecked (pos stop : Nat) : Option Nat := do
  let next ← sizeT (stop + 2)
  next.psub pos

/-- The payload of a bulk string, behind its header. -/
def bulkChecked (buf : Bytes) (pos lineEnd bulkLen : Nat) : Option ParseResult := do
  let dataStart ← sizeT (lineEnd + 2)
  let dataEnd ← sizeT (dataStart + bulkLen)
  let stop ← sizeT (dataEnd + 2)
  if stop > buf.length then some .incomplete
  else
    let found ← crlfAtChecked buf dataEnd
    if found then
      let text ← readStringChecked buf dataStart dataEnd
      let consumed ← consumedChecked pos dataEnd
      some (.complete (.string text) consumed)
    else some .error

/-- The element loop of an array that starts at `pos`; `parse` is `parse_at`, and the loop takes
at most `turns` turns. -/
def parseElemsChecked (parse : Nat → Option ParseResult) (pos : Nat) :
    (turns cursor remaining : Nat) → List RespValue → Option ParseResult
  | _, cursor, 0, values => do
    let consumed ← cursor.psub pos
    some (.complete (.array values) consumed)
  | 0, _, _ + 1, _ => none
  | turns + 1, cursor, remaining + 1, values => do
    let child ← parse cursor
    match child with
    | .complete value consumed =>
      let next ← sizeT (cursor + consumed)
      parseElemsChecked parse pos turns next remaining (values ++ [value])
    | .incomplete => some .incomplete
    | .error => some .error

/-- `parse_at`; the calls nest at most `depth` deep. -/
def parseAtChecked (buf : Bytes) : (depth : Nat) → (pos : Nat) → Option ParseResult
  | 0, _ => none
  | depth + 1, pos =>
    if buf.length ≤ pos then some .incomplete
    else do
      let type ← buf[pos]?
      let payloadStart ← sizeT (pos + 1)
      if type = 43 then -- '+': simple string
        match ← findCrlfChecked buf payloadStart with
        | none => some .incomplete
        | some lineEnd => do
          let text ← readStringChecked buf payloadStart lineEnd
          let consumed ← consumedChecked pos lineEnd
          some (.complete (.string text) consumed)
      else if type = 45 then -- '-': error
        match ← findCrlfChecked buf payloadStart with
        | none => some .incomplete
        | some lineEnd => do
          let text ← readStringChecked buf payloadStart lineEnd
          let consumed ← consumedChecked pos lineEnd
          some (.complete (.error text) consumed)
      else if type = 58 then -- ':': integer
        match ← findCrlfChecked buf payloadStart with
        | none => some .incomplete
        | some lineEnd => do
          let line ← readStringChecked buf payloadStart lineEnd
          match parseI64 line with
          | none => some .error
          | some n => do
            let consumed ← consumedChecked pos lineEnd
            some (.complete (.integer n) consumed)
      else if type = 36 then -- '$': bulk string
        match ← findCrlfChecked buf payloadStart with
        | none => some .incomplete
        | some lineEnd => do
          let line ← readStringChecked buf payloadStart lineEnd
          match parseI64 line with
          | none => some .error
          | some len =>
            if len < -1 then some .error
            else if len = -1 then do
              let consumed ← consumedChecked pos lineEnd
              some (.complete .null consumed)
            else bulkChecked buf pos lineEnd len.toInt.toNat
      else if type = 42 then -- '*': array
        match ← findCrlfChecked buf payloadStart with
        | none => some .incomplete
        | some lineEnd => do
          let line ← readStringChecked buf payloadStart lineEnd
          match parseI64 line with
          | none => some .error
          | some len =>
            if len < -1 then some .error
            else if len = -1 then do
              let consumed ← consumedChecked pos lineEnd
              some (.complete .null consumed)
            else do
              let cursor ← sizeT (lineEnd + 2)
              parseElemsChecked (parseAtChecked buf depth) pos (buf.length - pos + 1) cursor
                len.toInt.toNat []
      else some .error

/-- `RespParser::try_parse`: the erased range has to be in the buffer. -/
def RespParser.tryParseChecked (p : RespParser) : Option (ParseResult × RespParser) := do
  match ← parseAtChecked p.buf (p.buf.length + 1) 0 with
  | .complete value consumed =>
    if consumed ≤ p.buf.length ∧ consumed < 2 ^ 63 then
      some (.complete value consumed, { buf := p.buf.drop consumed })
    else none
  | .incomplete => some (.incomplete, p)
  | .error => some (.error, p)

/-! ## None of the checks fails -/

variable {buf : Bytes} {pos lineEnd : Nat}

/-- A number that a `size_t` holds is kept by it. -/
theorem sizeT_eq {n : Nat} (h : n < 2 ^ 64) : sizeT n = some n := fits_eq h

/-- The test for a line end reads two bytes inside the buffer. -/
theorem crlfAtChecked_eq {i : Nat} (hbuf : buf.length < 2 ^ 62) (hi : i < buf.length)
    (h : i + 1 < buf.length) :
    crlfAtChecked buf i = some (decide (buf[i] = 13 ∧ buf[i + 1] = 10)) := by
  have hfirst : buf[i]? = some buf[i] := List.getElem?_eq_getElem hi
  have hnext : buf[i + 1]? = some buf[i + 1] := List.getElem?_eq_getElem h
  rw [crlfAtChecked, hfirst, Option.bind_eq_bind, Option.bind_some]
  by_cases hcr : buf[i] = 13
  · rw [if_pos hcr, sizeT_eq (by omega), Option.bind_eq_bind, Option.bind_some, hnext]
    simp [hcr]
  · rw [if_neg hcr]
    simp [hcr]

/-- The search for a line end stays inside the buffer. -/
theorem findCrlfChecked_eq (hbuf : buf.length < 2 ^ 62) {i : Nat} (hi : i ≤ buf.length) :
    findCrlfChecked buf i = some (findCrlf buf i) := by
  fun_induction findCrlf buf i with
  | case1 i hlt heq =>
    rw [findCrlfChecked, sizeT_eq (by omega), Option.bind_eq_bind, Option.bind_some, dif_pos hlt,
      crlfAtChecked_eq hbuf (Nat.lt_of_succ_lt hlt) hlt, Option.bind_eq_bind, Option.bind_some]
    simp [heq]
  | case2 i hlt hne ih =>
    rw [findCrlfChecked, sizeT_eq (by omega), Option.bind_eq_bind, Option.bind_some, dif_pos hlt,
      crlfAtChecked_eq hbuf (Nat.lt_of_succ_lt hlt) hlt, Option.bind_eq_bind, Option.bind_some,
      ← ih (by omega)]
    simp [hne]
  | case3 i hge =>
    rw [findCrlfChecked, sizeT_eq (by omega), Option.bind_eq_bind, Option.bind_some, dif_neg hge]

/-- A string between two positions of the buffer is read inside it. -/
theorem readStringChecked_eq {start stop : Nat} (hle : start ≤ stop) (hstop : stop ≤ buf.length) :
    readStringChecked buf start stop = some (readString buf start stop) := by
  rw [readStringChecked, Nat.psub_eq_sub hle, Option.bind_eq_bind, Option.bind_some,
    reads_eq (by omega), readString]

/-- The number of bytes consumed does not wrap. -/
theorem consumedChecked_eq {stop : Nat} (hbuf : buf.length < 2 ^ 62) (hpos : pos ≤ stop)
    (hstop : stop ≤ buf.length) : consumedChecked pos stop = some (stop + 2 - pos) := by
  rw [consumedChecked, sizeT_eq (by omega), Option.bind_eq_bind, Option.bind_some,
    Nat.psub_eq_sub (by omega)]

/-- The line end is in the buffer. -/
theorem findCrlf_lt {i j : Nat} (h : findCrlf buf i = some j) : j + 1 < buf.length := by
  fun_induction findCrlf buf i with
  | case1 i hlt heq => exact Option.some.inj h ▸ hlt
  | case2 i hlt hne ih => exact ih h
  | case3 i hge => cases h

/-- A bulk string may be announced to end anywhere below `2 ^ 64`. -/
theorem bulkChecked_eq {bulkLen : Nat} (hbuf : buf.length < 2 ^ 62) (hlen : bulkLen < 2 ^ 63)
    (hpos : pos ≤ lineEnd) (hline : lineEnd + 1 < buf.length) :
    bulkChecked buf pos lineEnd bulkLen = some (
      if hend : lineEnd + 2 + bulkLen + 2 > buf.length then .incomplete
      else if buf[lineEnd + 2 + bulkLen] ≠ 13 ∨ buf[lineEnd + 2 + bulkLen + 1] ≠ 10 then .error
      else .complete (.string (readString buf (lineEnd + 2) (lineEnd + 2 + bulkLen)))
        (lineEnd + 2 + bulkLen + 2 - pos)) := by
  rw [bulkChecked, sizeT_eq (by omega), Option.bind_eq_bind, Option.bind_some,
    sizeT_eq (by omega), Option.bind_eq_bind, Option.bind_some,
    sizeT_eq (by omega), Option.bind_eq_bind, Option.bind_some]
  by_cases hend : lineEnd + 2 + bulkLen + 2 > buf.length
  · rw [if_pos hend, dif_pos hend]
  · rw [if_neg hend, dif_neg hend, crlfAtChecked_eq hbuf (by omega), Option.bind_some,
      readStringChecked_eq (by omega) (by omega), consumedChecked_eq hbuf (by omega) (by omega)]
    by_cases hcrlf : buf[lineEnd + 2 + bulkLen] = 13 ∧ buf[lineEnd + 2 + bulkLen + 1] = 10
    · simp [hcrlf]
    · rw [if_neg (by simpa using hcrlf), if_pos (not_and_or.mp hcrlf)]

/-- A complete message takes three bytes at least, and no more than there are from `pos` on. -/
theorem parseAt_consumed {v : RespValue} {n : Nat} (h : parseAt buf pos = .complete v n) :
    3 ≤ n ∧ n ≤ buf.length - pos := by
  obtain ⟨b, tail, hdrop, rfl, hmsg⟩ := parseAt_sound h
  have hlen := congrArg List.length hdrop
  rw [List.length_drop, List.length_append] at hlen
  exact ⟨hmsg.three_le, by omega⟩

/-- The element loop: each turn but the last takes bytes, so that the turns suffice. -/
theorem parseElemsChecked_eq {parse : Nat → Option ParseResult} {start : Nat}
    (hbuf : buf.length < 2 ^ 62)
    (hparse : ∀ cursor, start ≤ cursor → parse cursor = some (parseAt buf cursor)) :
    ∀ {turns cursor remaining : Nat} {values : List RespValue}, start ≤ cursor → pos ≤ cursor →
      cursor ≤ buf.length → buf.length - cursor < turns →
      parseElemsChecked parse pos turns cursor remaining values =
        some (parseElems buf pos cursor remaining values)
  | turns, cursor, 0, values, _, hpos, _, _ => by
    rw [parseElemsChecked, parseElems, Nat.psub_eq_sub hpos]
    rfl
  | 0, _, _ + 1, _, _, _, _, hturns => absurd hturns (Nat.not_lt_zero _)
  | turns + 1, cursor, remaining + 1, values, hstart, hpos, hcursor, hturns => by
    rw [parseElemsChecked, parseElems, hparse cursor hstart, Option.bind_eq_bind, Option.bind_some]
    cases hchild : parseAt buf cursor with
    | complete value consumed =>
      -- an element takes at least three bytes, so a turn of fuel is enough for it
      obtain ⟨hthree, hleft⟩ := parseAt_consumed hchild
      simp only [sizeT_eq (show cursor + consumed < 2 ^ 64 by omega), Option.bind_eq_bind,
        Option.bind_some]
      exact parseElemsChecked_eq hbuf hparse (by omega) (by omega) (by omega) (by omega)
    | incomplete => rfl
    | error => rfl

/-- An array behind its header line. -/
theorem parseAt_star (hpos : pos < buf.length) (hstar : buf[pos] = 42)
    (hfind : findCrlf buf (pos + 1) = some lineEnd) :
    parseAt buf pos =
      match parseI64 (readString buf (pos + 1) lineEnd) with
      | none => .error
      | some len =>
        if len < -1 then .error
        else if len = -1 then .complete .null (lineEnd + 2 - pos)
        else parseElems buf pos (lineEnd + 2) len.toInt.toNat [] := by
  rw [parseAt, dif_pos hpos, if_neg (by rw [hstar]; decide), if_neg (by rw [hstar]; decide),
    if_neg (by rw [hstar]; decide), if_neg (by rw [hstar]; decide), if_pos hstar]
  split
  · rename_i hnone
    rw [hfind] at hnone
    cases hnone
  · rename_i lineEnd' hsome
    rw [hfind] at hsome
    obtain rfl := Option.some.inj hsome
    rfl

/-- One call: none of its checks fails if none does in the calls for the elements. -/
theorem parseAtChecked_step {depth : Nat} (hbuf : buf.length < 2 ^ 62) (hpos : pos < buf.length)
    (helems : ∀ cursor, pos < cursor →
      parseAtChecked buf depth cursor = some (parseAt buf cursor)) :
    parseAtChecked buf (depth + 1) pos = some (parseAt buf pos) := by
  have hbyte : buf[pos]? = some buf[pos] := List.getElem?_eq_getElem hpos
  rw [parseAtChecked, if_neg (by omega), hbyte, Option.bind_eq_bind, Option.bind_some,
    sizeT_eq (by omega), Option.bind_eq_bind, Option.bind_some, findCrlfChecked_eq hbuf hpos]
  -- without a line the five types wait, and any other byte is refused
  cases hfind : findCrlf buf (pos + 1) with
  | none =>
    rw [parseAt_noLine hpos hfind]
    simp only [Option.bind_eq_bind, Option.bind_some]
    split_ifs <;> simp_all
  | some lineEnd =>
    have hge := findCrlf_ge hfind
    have hlt := findCrlf_lt hfind
    have hread : readStringChecked buf (pos + 1) lineEnd = _ := readStringChecked_eq hge (by omega)
    have hconsumed : consumedChecked pos lineEnd = _ :=
      consumedChecked_eq hbuf (by omega) (by omega)
    -- the type byte decides, in the order of the source
    by_cases hsimple : buf[pos] = 43
    · rw [parseAt, dif_pos hpos]
      simp only [if_pos hsimple, hfind, Option.bind_eq_bind, Option.bind_some, hread, hconsumed]
    by_cases herror : buf[pos] = 45
    · rw [parseAt, dif_pos hpos]
      simp only [if_neg hsimple, if_pos herror, hfind, Option.bind_eq_bind, Option.bind_some,
        hread, hconsumed]
    by_cases hinteger : buf[pos] = 58
    · rw [parseAt, dif_pos hpos]
      simp only [if_neg hsimple, if_neg herror, if_pos hinteger, hfind, Option.bind_eq_bind,
        Option.bind_some, hread, hconsumed]
      cases parseI64 (readString buf (pos + 1) lineEnd) <;> rfl
    by_cases hbulk : buf[pos] = 36
    · rw [parseAt, dif_pos hpos]
      simp only [if_neg hsimple, if_neg herror, if_neg hinteger, if_pos hbulk, hfind,
        Option.bind_eq_bind, Option.bind_some, hread, hconsumed]
      cases parseI64 (readString buf (pos + 1) lineEnd) with
      | none => rfl
      | some len =>
        have hlen := inRange_toInt len
        unfold InRange at hlen
        simp only [bulkChecked_eq hbuf (show len.toInt.toNat < 2 ^ 63 by omega)
          (show pos ≤ lineEnd by omega) hlt]
        split_ifs <;> rfl
    by_cases hstar : buf[pos] = 42
    · rw [parseAt_star hpos hstar hfind]
      simp only [if_neg hsimple, if_neg herror, if_neg hinteger, if_neg hbulk, if_pos hstar,
        Option.bind_eq_bind, Option.bind_some, hread, hconsumed]
      cases parseI64 (readString buf (pos + 1) lineEnd) with
      | none => rfl
      | some len =>
        simp only [sizeT_eq (show lineEnd + 2 < 2 ^ 64 by omega), Option.bind_some]
        rw [parseElemsChecked_eq hbuf (fun cursor hcursor => helems cursor (by omega))
          (Nat.le_refl _) (by omega) (by omega) (by omega)]
        split_ifs <;> rfl
    · have hbad := parseAt_badType hpos (by tauto)
      simp only [if_neg hsimple, if_neg herror, if_neg hinteger, if_neg hbulk, if_neg hstar, hbad]

/-- **None of the checks fails**, at any position, with a level for each byte that is left and
one more. -/
theorem parseAtChecked_eq (hbuf : buf.length < 2 ^ 62) (depth : Nat) :
    ∀ {pos : Nat}, buf.length - pos < depth →
      parseAtChecked buf depth pos = some (parseAt buf pos) := by
  induction depth with
  | zero => exact fun h => absurd h (Nat.not_lt_zero _)
  | succ depth ih =>
    intro pos hdepth
    rcases Nat.lt_or_ge pos buf.length with hpos | hpos
    · exact parseAtChecked_step hbuf hpos fun cursor hcursor => ih (by omega)
    · rw [parseAtChecked, if_pos hpos, parseAt_end hpos]

/-! ## The stateful parser -/

/-- The range that `try_parse` erases is in the buffer. -/
theorem RespParser.tryParseChecked_eq {p : RespParser} (hbuf : p.buf.length < 2 ^ 62) :
    p.tryParseChecked = some p.tryParse := by
  have hparse : parseAtChecked p.buf (p.buf.length + 1) 0 = some (parseAt p.buf 0) :=
    parseAtChecked_eq hbuf _ (by omega)
  rw [RespParser.tryParseChecked, RespParser.tryParse, hparse, Option.bind_eq_bind,
    Option.bind_some]
  cases hresult : parseAt p.buf 0 with
  | complete value consumed =>
    have hleft := (parseAt_consumed hresult).2
    exact if_pos ⟨hleft, by omega⟩
  | incomplete => rfl
  | error => rfl

/-- Only a complete message is taken from the buffer. -/
theorem RespParser.tryParse_kept {p : RespParser}
    (h : ∀ value consumed, p.tryParse.1 ≠ .complete value consumed) : p.tryParse.2 = p := by
  rw [RespParser.tryParse] at h ⊢
  cases hresult : parseAt p.buf 0 with
  | complete value consumed =>
    rw [hresult] at h
    exact absurd rfl (h value consumed)
  | incomplete => rfl
  | error => rfl

end Redix
