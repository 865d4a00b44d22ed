import Redix.Base.Framing
import Redix.Base.Numbers
import Mathlib.Data.List.Infix

/-!
# The RESP codec (resp.cpp)

Values, the encoder, and the recursive-descent parser over a receive buffer,
branch for branch as the source has them. The parser indexes one buffer and
never copies it: `parseAt buf pos` restarts at an absolute position, and the
array case walks a cursor through its elements.

Two conventions:

- `std::size_t` positions are `Nat`; an `npos` result is `none`. The parsed
  64-bit lengths stay `Int64` until they are known to be non-negative.
- A `ParseResult` that is not `Complete` always carries a default value and
  `consumed = 0` in the source, so the three statuses are three constructors
  and only `complete` has data.
-/

namespace Redix

/-! ## Values -/

/-- `RespValue`: null, bulk or simple string, 64-bit integer, error, array. -/
inductive RespValue where
  | null
  | string (s : Bytes)
  | integer (n : Int64)
  | error (message : Bytes)
  | array (elems : List RespValue)

/-- `ParseResult`: a status, with the value and the consumed count when it is
`Complete`. -/
abbrev ParseResult := Framing.Outcome RespValue

/-- The two-byte line end. -/
def crlf : Bytes := [13, 10]

/-- No line end occurs anywhere inside. -/
def NoCrlf (s : Bytes) : Prop := ¬ crlf <:+: s

instance (s : Bytes) : Decidable (NoCrlf s) := inferInstanceAs (Decidable (¬ _))

/-! ## Encoding -/

mutual

/-- `resp_encode`: the bytes appended to `out`. Every string is sent as a bulk
string. -/
def respEncode : RespValue → Bytes
  | .null => ascii "$-1\r\n"
  | .string s => ascii "$" ++ Decimal.printNat s.length ++ crlf ++ s ++ crlf
  | .integer n => ascii ":" ++ Decimal.print n.toInt ++ crlf
  | .error message => ascii "-" ++ message ++ crlf
  | .array elems =>
    ascii "*" ++ Decimal.printNat elems.length ++ crlf ++ respEncodeAll elems

/-- The loop over an array's elements. -/
def respEncodeAll : List RespValue → Bytes
  | [] => []
  | elem :: rest => respEncode elem ++ respEncodeAll rest

end

/-- `resp_ok` -/
def respOk : Bytes := ascii "+OK\r\n"

/-- `resp_error` -/
def respError (msg : Bytes) : Bytes := ascii "-" ++ msg ++ crlf

/-- `resp_integer` -/
def respInteger (n : Int64) : Bytes := ascii ":" ++ Decimal.print n.toInt ++ crlf

/-- `resp_bulk` -/
def respBulk (s : Bytes) : Bytes :=
  ascii "$" ++ Decimal.printNat s.length ++ crlf ++ s ++ crlf

/-- `resp_null_bulk` -/
def respNullBulk : Bytes := ascii "$-1\r\n"

/-- `resp_array` -/
def respArray (elems : List RespValue) : Bytes :=
  ascii "*" ++ Decimal.printNat elems.length ++ crlf ++ respEncodeAll elems

/-- A bulk string is not null. -/
theorem respBulk_ne_null (value : Bytes) : respBulk value ≠ respNullBulk := by
  have hne := Decimal.printNat_ne_nil value.length
  have hdigits := Decimal.printNat_isDigit value.length
  rw [respBulk]
  cases hprint : Decimal.printNat value.length with
  | nil => exact absurd hprint hne
  | cons digit rest =>
    intro h
    have hdigit := hdigits digit (hprint ▸ List.mem_cons_self)
    -- the length starts with a digit, not with a minus sign
    obtain rfl : digit = 45 := (List.cons.inj (List.cons.inj h).2).1
    rw [Decimal.minus_not_digit] at hdigit
    cases hdigit

/-- Bulk strings are told apart by what they are sent as: the length is read up to the line end,
and then the text. -/
theorem respBulk_injective : Function.Injective respBulk := by
  intro value value' h
  have hlength (s : Bytes) :
      (respBulk s).tail.takeWhile Decimal.isDigit = Decimal.printNat s.length := by
    have htail : (respBulk s).tail = Decimal.printNat s.length ++ (crlf ++ (s ++ crlf)) := by
      simp only [respBulk, List.append_assoc]
      rfl
    have hend : (crlf ++ (s ++ crlf)).takeWhile Decimal.isDigit = [] := rfl
    rw [htail, List.takeWhile_append_of_pos (Decimal.printNat_isDigit s.length), hend,
      List.append_nil]
  have hlen : value.length = value'.length := by
    rw [← Decimal.value_printNat value.length, ← hlength value, h, hlength value',
      Decimal.value_printNat]
  rw [respBulk, respBulk, hlen] at h
  exact List.append_cancel_left (List.append_cancel_right h)

/-! ## Parsing -/

/-- `find_crlf`: the first position from `i` on where a CR LF pair starts. -/
def findCrlf (buf : Bytes) (i : Nat) : Option Nat :=
  if h : i + 1 < buf.length then
    if buf[i] = 13 ∧ buf[i + 1] = 10 then some i else findCrlf buf (i + 1)
  else none
termination_by buf.length - i

/-- `read_string`: the bytes in `[start, stop)`. -/
def readString (buf : Bytes) (start stop : Nat) : Bytes :=
  (buf.drop start).take (stop - start)

/-- A line end is not found before where the search starts. -/
theorem findCrlf_ge {buf : Bytes} {i j : Nat} (h : findCrlf buf i = some j) :
    i ≤ j := by
  fun_induction findCrlf buf i with
  | case1 i hlt heq => exact (Option.some.inj h).le
  | case2 i hlt hne ih => exact Nat.le_of_succ_le (ih h)
  | case3 i hge => cases h

mutual

/-- `parse_at`: one attempt at the message that starts at `pos`. -/
def parseAt (buf : Bytes) (pos : Nat) : ParseResult :=
  if hpos : pos < buf.length then
    let type := buf[pos]
    let payloadStart := pos + 1
    if type = 43 then -- '+': simple string
      match findCrlf buf payloadStart with
      | none => .incomplete
      | some lineEnd =>
        .complete (.string (readString buf payloadStart lineEnd)) (lineEnd + 2 - pos)
    else if type = 45 then -- '-': error
      match findCrlf buf payloadStart with
      | none => .incomplete
      | some lineEnd =>
        .complete (.error (readString buf payloadStart lineEnd)) (lineEnd + 2 - pos)
    else if type = 58 then -- ':': integer
      match findCrlf buf payloadStart with
      | none => .incomplete
      | some lineEnd =>
        match parseI64 (readString buf payloadStart lineEnd) with
        | none => .error
        | some n => .complete (.integer n) (lineEnd + 2 - pos)
    else if type = 36 then -- '$': bulk string
      match findCrlf buf payloadStart with
      | none => .incomplete
      | some lineEnd =>
        match parseI64 (readString buf payloadStart lineEnd) with
        | none => .error
        | some len =>
          if len < -1 then .error
          else if len = -1 then .complete .null (lineEnd + 2 - pos)
          else
            let dataStart := lineEnd + 2
            let dataEnd := dataStart + len.toInt.toNat
            if hend : dataEnd + 2 > buf.length then .incomplete
            else if buf[dataEnd] ≠ 13 ∨ buf[dataEnd + 1] ≠ 10 then .error
            else .complete (.string (readString buf dataStart dataEnd)) (dataEnd + 2 - pos)
    else if type = 42 then -- '*': array
      match _hline : findCrlf buf payloadStart with
      | none => .incomplete
      | some lineEnd =>
        match parseI64 (readString buf payloadStart lineEnd) with
        | none => .error
        | some len =>
          if len < -1 then .error
          else if len = -1 then .complete .null (lineEnd + 2 - pos)
          else parseElems buf pos (lineEnd + 2) len.toInt.toNat []
    else .error
  else .incomplete
termination_by (buf.length - pos, 0)
decreasing_by
  have := findCrlf_ge _hline
  exact Prod.Lex.left _ _ (by omega)

/-- The element loop of the array case: `remaining` elements are still to be
parsed from `cursor` on, `values` are those already pushed. -/
def parseElems (buf : Bytes) (pos cursor remaining : Nat)
    (values : List RespValue) : ParseResult :=
  match remaining with
  | 0 => .complete (.array values) (cursor - pos)
  | remaining + 1 =>
    match parseAt buf cursor with
    | .complete value consumed =>
      parseElems buf pos (cursor + consumed) remaining (values ++ [value])
    | .incomplete => .incomplete
    | .error => .error
termination_by (buf.length - cursor, remaining + 1)
decreasing_by
  · exact Prod.Lex.right _ (by omega)
  · rcases Nat.lt_or_ge (buf.length - (cursor + consumed)) (buf.length - cursor) with
      hlt | hge
    · exact Prod.Lex.left _ _ hlt
    · have heq : buf.length - (cursor + consumed) = buf.length - cursor := by omega
      rw [heq]
      exact Prod.Lex.right _ (by omega)

end

/-! ## The stateful parser -/

/-- `RespParser`: the receive buffer. -/
structure RespParser where
  buf : Bytes := []

/-- `RespParser::feed` -/
def RespParser.feed (p : RespParser) (data : Bytes) : RespParser :=
  { buf := p.buf ++ data }

/-- `RespParser::try_parse`: a complete message is erased from the front. -/
def RespParser.tryParse (p : RespParser) : ParseResult × RespParser :=
  match parseAt p.buf 0 with
  | .complete value consumed =>
    (.complete value consumed, { buf := p.buf.drop consumed })
  | .incomplete => (.incomplete, p)
  | .error => (.error, p)

/-- `RespParser::reset` -/
def RespParser.reset (_ : RespParser) : RespParser := { buf := [] }

end Redix
