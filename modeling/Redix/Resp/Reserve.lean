import Redix.Resp.Grammar

/-!
# What the parser takes

Before the first element of an array has been looked at, `parse_at` reserves space for as
many as its header announces, and it calls itself for each element. The length is the
client's, and so is the nesting. `std::vector::reserve` throws `std::length_error` for more
than `max_size()` elements and `std::bad_alloc` if there is no memory for them, and nothing
on the way up to `main` catches either; nor does anything stop the recursion when the stack
is used up.

- `Resources`: what there is to take, a parameter of each call;
- `parseAtReserving`: the parser, with the three ways in which it may not return;
- `Announces`: by the grammar, the arrays that the parser comes across in a buffer;
- `parseAtReserving_guarded`: a call returns exactly if there is enough for each of them;
- `survives_iff`: the same for any run of calls on one parser.

Memory for what has been received (the lines and strings of a message, and the copies of its
values) is in proportion to the bytes fed, and is taken to be there.
-/

namespace Redix

/-! ## The parser with its faults -/

/-- What ends the program from within the parser. -/
inductive Fault where
  /-- `std::length_error`, from `values.reserve(len)`. -/
  | lengthError
  /-- `std::bad_alloc`, from the same call. -/
  | badAlloc
  /-- The stack is used up. -/
  | stackOverflow
deriving DecidableEq

/-- What there is for one call of the parser to take. What the allocator and the stack have
left depends on the rest of the program, so it may differ from call to call. -/
structure Resources where
  /-- `std::vector<RespValue>::max_size()` -/
  maxSize : Nat
  /-- Whether there is memory for so many elements of the array whose header is at a
  position. By then its outer arrays have taken theirs. -/
  memory : Nat → Nat → Bool
  /-- How many calls of `parse_at` the stack has room for, one within the other, and for the
  copying and destroying of values as deep. -/
  frames : Nat

/-- `values.reserve(len)`, for the array whose header is at `pos`. -/
def Resources.reserve (r : Resources) (pos len : Nat) : Except Fault Unit :=
  -- an empty vector has room for no elements already
  if len = 0 then .ok ()
  else if r.maxSize < len then .error .lengthError
  else if r.memory pos len then .ok ()
  else .error .badAlloc

/-- libc++'s `max_size()` of a vector, for elements of `size` bytes: what `size_t` can count
in bytes, and `ptrdiff_t` in elements. -/
def maxElements (size : Nat) : Nat := min ((2 ^ 64 - 1) / size) (2 ^ 63 - 1)

mutual

/-- `parse_at` with its `values.reserve(len)`, inside `depth` calls of itself. -/
def parseAtReserving (r : Resources) (depth : Nat) (buf : Bytes) (pos : Nat) :
    Except Fault ParseResult :=
  if depth < r.frames then
    if hpos : pos < buf.length then
      if buf[pos] = 42 then -- '*': array
        match _hline : findCrlf buf (pos + 1) with
        | none => .ok .incomplete
        | some lineEnd =>
          match parseI64 (readString buf (pos + 1) lineEnd) with
          | none => .ok .error
          | some len =>
            if len < -1 then .ok .error
            else if len = -1 then .ok (.complete .null (lineEnd + 2 - pos))
            else
              match r.reserve pos len.toInt.toNat with
              | .error fault => .error fault
              | .ok () => parseElemsReserving r depth buf pos (lineEnd + 2) len.toInt.toNat []
      else .ok (parseAt buf pos) -- the other kinds of message reserve nothing
    else .ok .incomplete
  else .error .stackOverflow
termination_by (buf.length - pos, 0)
decreasing_by
  have := findCrlf_ge _hline
  exact Prod.Lex.left _ _ (by omega)

/-- The element loop; an exception of an element is passed on. -/
def parseElemsReserving (r : Resources) (depth : Nat) (buf : Bytes) (pos cursor remaining : Nat)
    (values : List RespValue) : Except Fault ParseResult :=
  match remaining with
  | 0 => .ok (.complete (.array values) (cursor - pos))
  | remaining + 1 =>
    match parseAtReserving r (depth + 1) buf cursor with
    | .error fault => .error fault
    | .ok (.complete value consumed) =>
      parseElemsReserving r depth buf pos (cursor + consumed) remaining (values ++ [value])
    | .ok .incomplete => .ok .incomplete
    | .ok .error => .ok .error
termination_by (buf.length - cursor, remaining + 1)
decreasing_by
  · exact Prod.Lex.right _ (by omega)
  · rcases Nat.lt_or_ge (buf.length - (cursor + consumed)) (buf.length - cursor) with
      hlt | hge
    · exact Prod.Lex.left _ _ hlt
    · have heq : buf.length - (cursor + consumed) = buf.length - cursor := by omega
      rw [heq]
      exact Prod.Lex.right _ (by omega)

end

/-- `RespParser::try_parse` with the faults. -/
def RespParser.tryParseReserving (r : Resources) (p : RespParser) :
    Except Fault (ParseResult × RespParser) :=
  match parseAtReserving r 0 p.buf 0 with
  | .error fault => .error fault
  | .ok (.complete value consumed) =>
    .ok (.complete value consumed, { buf := p.buf.drop consumed })
  | .ok .incomplete => .ok (.incomplete, p)
  | .ok .error => .ok (.error, p)

/-! ## What a buffer announces -/

/-- A buffer that starts at `pos`, inside `depth` arrays, announces an array of `n` elements,
at least one: at its front, or behind the header and some, but not all, elements of an array
there. The header of that array is at `header`, and it is inside `level` arrays. -/
inductive Announces : Nat → Nat → Bytes → Nat → Nat → Nat → Prop
  | here {pos depth : Nat} {text tail : Bytes} {len : Int64} {n : Nat} (hlen : IntText text len)
      (hn : len.toInt = n) (hsome : 0 < n) :
      Announces pos depth (42 :: (text ++ (crlf ++ tail))) pos depth n
  | inside {pos depth header level : Nat} {text rest : Bytes} {len : Int64} {n : Nat}
      {parts : List (Bytes × RespValue)} (hlen : IntText text len)
      (hmore : (parts.length : Int) < len.toInt) (hparts : ∀ p ∈ parts, Message p.1 p.2)
      (h : Announces (pos + (text.length + 3) + (parts.map Prod.fst).flatten.length) (depth + 1)
        rest header level n) :
      Announces pos depth (42 :: (text ++ (crlf ++ ((parts.map Prod.fst).flatten ++ rest))))
        header level n

/-- There is enough for an array: the space of its elements, and a call for the first. -/
structure Resources.Fits (r : Resources) (header level n : Nat) : Prop where
  size : n ≤ r.maxSize
  memory : r.memory header n = true
  frames : level + 1 < r.frames

/-- There is enough for the message at `pos`, inside `depth` arrays: for the call, and for
each array announced. -/
structure Resources.Suffice (r : Resources) (pos depth : Nat) (buf : Bytes) : Prop where
  frames : depth < r.frames
  fits : ∀ header level n, Announces pos depth buf header level n → r.Fits header level n

variable {r : Resources} {pos depth : Nat}

/-- In a buffer that announces an array, a line with its length is at the front. -/
theorem Announces.front {buf : Bytes} {header level n : Nat}
    (h : Announces pos depth buf header level n) :
    ∃ text len tail, buf = 42 :: (text ++ (crlf ++ tail)) ∧ IntText text len ∧ 0 < len.toInt := by
  cases h with
  | here hlen hn hsome => exact ⟨_, _, _, rfl, hlen, by omega⟩
  | inside hlen hmore hparts h => exact ⟨_, _, _, rfl, hlen, by omega⟩

/-- A line ends at its first line end. -/
theorem line_unique {line line' tail tail' : Bytes} (hline : NoCrlf line)
    (hline' : NoCrlf line') (h : line ++ (crlf ++ tail) = line' ++ (crlf ++ tail')) :
    line = line' ∧ tail = tail' := by
  have hmessages : (43 :: (line ++ crlf)) ++ tail = (43 :: (line' ++ crlf)) ++ tail' := by
    simpa using h
  obtain ⟨hsame, -⟩ := (Message.simple hline).unique (.simple hline') hmessages
  have hsame : line = line' := List.append_cancel_right (List.cons.inj hsame).2
  subst hsame
  exact ⟨rfl, List.append_cancel_left (List.append_cancel_left h)⟩

/-- A buffer that does not start with the header of an array takes the call only. -/
theorem suffice_of_front {buf : Bytes} (hframes : depth < r.frames)
    (h : ∀ text len tail, buf = 42 :: (text ++ (crlf ++ tail)) → IntText text len →
      len.toInt ≤ 0) : r.Suffice pos depth buf := by
  refine ⟨hframes, fun header level n hn => ?_⟩
  obtain ⟨text, len, tail, hbuf, hlen, hpos⟩ := hn.front
  have := h text len tail hbuf hlen
  omega

/-- There is enough for `k` elements from `pos` on, inside `depth` arrays: for the call for
each, and for the arrays they announce, as far as the elements before them are there. -/
structure Resources.SufficeElems (r : Resources) (pos depth : Nat) (buf : Bytes) (k : Nat) :
    Prop where
  frames : 0 < k → depth < r.frames
  fits : ∀ (parts : List (Bytes × RespValue)) (rest : Bytes) (header level n : Nat),
    parts.length < k → (∀ p ∈ parts, Message p.1 p.2) →
    buf = (parts.map Prod.fst).flatten ++ rest →
    Announces (pos + (parts.map Prod.fst).flatten.length) depth rest header level n →
    r.Fits header level n

section elements

variable {k : Nat} {buf b tail : Bytes} {v : RespValue}

/-- No elements take nothing. -/
theorem sufficeElems_zero : r.SufficeElems pos depth buf 0 :=
  ⟨fun h => absurd h (Nat.lt_irrefl 0), fun _ _ _ _ _ hlen => absurd hlen (Nat.not_lt_zero _)⟩

/-- There is enough for the first of the elements. -/
theorem Resources.SufficeElems.first (h : r.SufficeElems pos depth buf (k + 1)) :
    r.Suffice pos depth buf := by
  refine ⟨h.frames (Nat.succ_pos k), fun header level n hn => ?_⟩
  exact h.fits [] buf header level n (Nat.succ_pos k)
    (fun p hp => absurd hp List.not_mem_nil) rfl hn

/-- Behind a complete element come the others. -/
theorem sufficeElems_succ (hmsg : Message b v) :
    r.SufficeElems pos depth (b ++ tail) (k + 1) ↔
      r.Suffice pos depth (b ++ tail) ∧ r.SufficeElems (pos + b.length) depth tail k := by
  constructor
  · refine fun h => ⟨h.first, fun _ => h.frames (Nat.succ_pos k), ?_⟩
    intro parts rest header level n hlen hparts htail hn
    refine h.fits ((b, v) :: parts) rest header level n (Nat.succ_lt_succ hlen)
      (List.forall_mem_cons.mpr ⟨hmsg, hparts⟩) ?_ ?_
    · rw [htail, List.map_cons, List.flatten_cons, List.append_assoc]
    · rwa [List.map_cons, List.flatten_cons, List.length_append, ← Nat.add_assoc]
  · rintro ⟨hfirst, hrest⟩
    refine ⟨fun _ => hfirst.frames, fun parts rest header level n hlen hparts hbuf hn => ?_⟩
    cases parts with
    | nil =>
      have hbuf : b ++ tail = rest := hbuf
      subst hbuf
      exact hfirst.fits header level n hn
    | cons p parts =>
      obtain ⟨hp, hparts⟩ := List.forall_mem_cons.mp hparts
      rw [List.map_cons, List.flatten_cons, List.append_assoc] at hbuf
      -- the first element is the message that is there
      obtain ⟨hsame, -⟩ := hmsg.unique hp hbuf
      rw [List.map_cons, List.flatten_cons, List.length_append, ← hsame, ← Nat.add_assoc] at hn
      rw [← hsame] at hbuf
      exact hrest.fits parts rest header level n (Nat.lt_of_succ_lt_succ hlen) hparts
        (List.append_cancel_left hbuf) hn

/-- Behind an element that is not complete comes nothing. -/
theorem sufficeElems_incomplete (h : ∀ b v tail, buf = b ++ tail → ¬ Message b v) :
    r.SufficeElems pos depth buf (k + 1) ↔ r.Suffice pos depth buf := by
  refine ⟨Resources.SufficeElems.first, fun hfirst => ⟨fun _ => hfirst.frames, ?_⟩⟩
  intro parts rest header level n _ hparts hbuf hn
  cases parts with
  | nil =>
    have hbuf : buf = rest := hbuf
    subst hbuf
    exact hfirst.fits header level n hn
  | cons p parts =>
    rw [List.map_cons, List.flatten_cons, List.append_assoc] at hbuf
    exact absurd (hparts p List.mem_cons_self) (h p.1 p.2 _ hbuf)

/-- An array takes a call, what it announces itself, and what its elements do. -/
theorem suffice_array {text : Bytes} {len : Int64} (hlen : IntText text len)
    (hnonneg : 0 ≤ len.toInt) : r.Suffice pos depth (42 :: (text ++ (crlf ++ tail))) ↔
      depth < r.frames ∧ (0 < len.toInt.toNat → r.Fits pos depth len.toInt.toNat) ∧
      r.SufficeElems (pos + (text.length + 3)) (depth + 1) tail len.toInt.toNat := by
  constructor
  · intro h
    have hhere (hsome : 0 < len.toInt.toNat) : r.Fits pos depth len.toInt.toNat :=
      h.fits pos depth _ (.here hlen (by omega) hsome)
    refine ⟨h.frames, hhere, fun hsome => (hhere hsome).frames, ?_⟩
    intro parts rest header level n hk hparts htail hn
    refine h.fits header level n ?_
    rw [htail]
    exact .inside hlen (by omega) hparts hn
  · rintro ⟨hframes, hhere, helems⟩
    refine ⟨hframes, fun header level n hn => ?_⟩
    -- the header line is read in one way only
    have hsame : ∀ {text' : Bytes} {len' : Int64} {tail' : Bytes}, IntText text' len' →
        text ++ (crlf ++ tail) = text' ++ (crlf ++ tail') →
          text = text' ∧ len = len' ∧ tail = tail' := by
      intro text' len' tail' hlen' heq
      obtain ⟨rfl, rfl⟩ := line_unique hlen.noCrlf hlen'.noCrlf heq
      have hread := parseI64_eq_some.mpr hlen
      rw [parseI64_eq_some.mpr hlen'] at hread
      exact ⟨rfl, (Option.some.inj hread).symm, rfl⟩
    generalize hbuf : 42 :: (text ++ (crlf ++ tail)) = buf at hn
    cases hn with
    | here hlen' hn hsome =>
      obtain ⟨-, rfl, -⟩ := hsame hlen' (List.cons.inj hbuf).2
      have hlength : len.toInt.toNat = n := by omega
      rw [hlength] at hhere
      exact hhere hsome
    | inside hlen' hmore hparts h =>
      obtain ⟨rfl, rfl, rfl⟩ := hsame hlen' (List.cons.inj hbuf).2
      exact helems.fits _ _ header level n (by omega) hparts rfl h

end elements

/-! ## One call -/

/-- A result that is the plain one if there is enough, and a fault if not. -/
def Guarded (enough : Prop) (plain : ParseResult) (result : Except Fault ParseResult) : Prop :=
  (enough ∧ result = .ok plain) ∨ (¬ enough ∧ ∃ fault, result = .error fault)

/-- Enough may be said in other words. -/
theorem Guarded.congr {enough enough' : Prop} {plain : ParseResult}
    {result : Except Fault ParseResult} (h : Guarded enough plain result)
    (hiff : enough' ↔ enough) : Guarded enough' plain result := by
  rwa [Guarded, hiff]

/-- `reserve` grants what is within `max_size()` and found in memory, and nothing else. -/
theorem reserve_cases (r : Resources) (header n : Nat) :
    (r.reserve header n = .ok () ∧ (0 < n → n ≤ r.maxSize ∧ r.memory header n = true)) ∨
    (∃ fault, r.reserve header n = .error fault ∧ 0 < n ∧ ∀ level, ¬ r.Fits header level n) := by
  rw [Resources.reserve]
  split_ifs with hzero hsize hmemory
  · exact .inl ⟨rfl, fun hsome => absurd hzero (by omega)⟩
  · exact .inr ⟨_, rfl, by omega, fun level h => absurd h.size (by omega)⟩
  · exact .inl ⟨rfl, fun _ => ⟨by omega, hmemory⟩⟩
  · exact .inr ⟨_, rfl, by omega, fun level h => hmemory h.memory⟩

/-- The array case on a buffer with a line. -/
theorem parseAtReserving_array (hframes : depth < r.frames) (pre tail : Bytes) {line : Bytes}
    (hline : NoCrlf line) :
    parseAtReserving r depth (pre ++ 42 :: (line ++ (crlf ++ tail))) pre.length =
      match parseI64 line with
      | none => .ok .error
      | some len =>
        if len < -1 then .ok .error
        else if len = -1 then .ok (.complete .null (line.length + 3))
        else
          match r.reserve pre.length len.toInt.toNat with
          | .error fault => .error fault
          | .ok () =>
            parseElemsReserving r depth (pre ++ 42 :: (line ++ (crlf ++ tail))) pre.length
              (pre.length + (line.length + 3)) len.toInt.toNat [] := by
  have hlen : pre.length + 1 + line.length + 2 - pre.length = line.length + 3 := by
    omega
  have hcur : pre.length + 1 + line.length + 2 = pre.length + (line.length + 3) := by
    omega
  rw [parseAtReserving, if_pos hframes, dif_pos (by simp),
    List.getElem_append_right (Nat.le_refl _)]
  simp only [Nat.sub_self, List.getElem_cons_zero, if_true]
  split
  · rename_i hnone
    rw [findCrlf_at pre tail 42 hline] at hnone
    cases hnone
  · rename_i lineEnd hsome
    rw [findCrlf_at pre tail 42 hline] at hsome
    obtain rfl := Option.some.inj hsome
    cases hint : parseI64 line with
    | none => simp only [readString_at, hint]
    | some k =>
      simp only [readString_at, hint]
      rw [hlen, hcur]

/-- Where the parser finds no complete message, there is none. -/
theorem noMessage {buf : Bytes} {cursor : Nat} (h : ∀ v n, parseAt buf cursor ≠ .complete v n)
    (b : Bytes) (v : RespValue) (tail : Bytes) (hdrop : buf.drop cursor = b ++ tail) :
    ¬ Message b v := by
  intro hmsg
  have hcursor : cursor ≤ buf.length := by
    by_contra hlt
    rw [List.drop_of_length_le (by omega)] at hdrop
    have hthree := hmsg.three_le
    have hlen := congrArg List.length hdrop
    rw [List.length_nil, List.length_append] at hlen
    omega
  have hparse := parseAt_message hmsg (buf.take cursor) tail
  rw [← hdrop, List.take_append_drop, List.length_take_of_le hcursor] at hparse
  exact h v b.length hparse

/-- The element loop, provided the recursive calls are as they should. -/
theorem parseElemsReserving_guarded {buf : Bytes} {start : Nat}
    (hchild : ∀ {cursor}, start ≤ cursor → Guarded (r.Suffice cursor (depth + 1) (buf.drop cursor))
      (parseAt buf cursor) (parseAtReserving r (depth + 1) buf cursor)) :
    ∀ {k cursor : Nat} {values : List RespValue}, start ≤ cursor →
      Guarded (r.SufficeElems cursor (depth + 1) (buf.drop cursor) k)
        (parseElems buf pos cursor k values)
        (parseElemsReserving r depth buf pos cursor k values)
  | 0, cursor, values, _ => by
    rw [parseElems, parseElemsReserving]
    exact .inl ⟨sufficeElems_zero, rfl⟩
  | k + 1, cursor, values, hstart => by
    rw [parseElems, parseElemsReserving]
    -- an element that fails ends the loop, one that is parsed leaves the rest to it
    rcases hchild hstart with ⟨henough, hresult⟩ | ⟨hnot, fault, hresult⟩
    · rw [hresult]
      cases hplain : parseAt buf cursor with
      | complete value consumed =>
        obtain ⟨b, tail, hdrop, hlen, hmsg⟩ := parseAt_sound hplain
        have hrest : buf.drop (cursor + consumed) = tail := by
          rw [← List.drop_drop, hdrop, ← hlen, List.drop_left]
        refine (parseElemsReserving_guarded hchild (Nat.le_add_right_of_le hstart)).congr ?_
        rw [hrest, hdrop, sufficeElems_succ hmsg, ← hdrop, hlen]
        exact and_iff_right henough
      | incomplete | error =>
        refine .inl ⟨(sufficeElems_incomplete (noMessage fun v n hcomplete => ?_)).mpr henough,
          rfl⟩
        cases hplain.symm.trans hcomplete
    · rw [hresult]
      exact .inr ⟨fun helems => hnot helems.first, fault, rfl⟩

/-- The array case, provided the recursive calls are as they should. -/
theorem array_guarded {pre line tail : Bytes} (hline : NoCrlf line) (hframes : depth < r.frames)
    (hchild : ∀ {cursor}, pre.length + 1 ≤ cursor →
      Guarded (r.Suffice cursor (depth + 1)
          ((pre ++ 42 :: (line ++ (crlf ++ tail))).drop cursor))
        (parseAt (pre ++ 42 :: (line ++ (crlf ++ tail))) cursor)
        (parseAtReserving r (depth + 1) (pre ++ 42 :: (line ++ (crlf ++ tail))) cursor)) :
    Guarded (r.Suffice pre.length depth (42 :: (line ++ (crlf ++ tail))))
      (parseAt (pre ++ 42 :: (line ++ (crlf ++ tail))) pre.length)
      (parseAtReserving r depth (pre ++ 42 :: (line ++ (crlf ++ tail))) pre.length) := by
  -- a line that is not a length announces nothing
  have hnothing : (∀ len, IntText line len → len.toInt ≤ 0) →
      r.Suffice pre.length depth (42 :: (line ++ (crlf ++ tail))) := by
    refine fun h => suffice_of_front hframes fun text len tail' heq htext => ?_
    obtain ⟨rfl, -⟩ := line_unique hline htext.noCrlf (List.cons.inj heq).2
    exact h len htext
  rw [parseAt_array pre tail hline, parseAtReserving_array hframes pre tail hline]
  cases hint : parseI64 line with
  | none =>
    refine .inl ⟨hnothing fun len htext => ?_, rfl⟩
    rw [parseI64_eq_some.mpr htext] at hint
    cases hint
  | some len =>
    have htext : IntText line len := parseI64_eq_some.mp hint
    have hneg (h : len.toInt ≤ 0) :
        r.Suffice pre.length depth (42 :: (line ++ (crlf ++ tail))) := by
      refine hnothing fun len' htext' => ?_
      rw [parseI64_eq_some.mpr htext', Option.some.injEq] at hint
      rwa [hint]
    by_cases hlt : len < -1
    · simp only [if_pos hlt]
      refine .inl ⟨hneg ?_, rfl⟩
      have hminus : (-1 : Int64).toInt = -1 := by decide
      rw [Int64.lt_iff_toInt_lt, hminus] at hlt
      omega
    · by_cases hnull : len = -1
      · simp only [if_neg hlt, if_pos hnull]
        subst hnull
        exact .inl ⟨hneg (by decide), rfl⟩
      · have hnonneg := int64_nonneg hlt hnull
        have hdrop : (pre ++ 42 :: (line ++ (crlf ++ tail))).drop
            (pre.length + (line.length + 3)) = tail := by
          rw [← List.drop_drop, List.drop_left]
          simp [crlf]
        simp only [if_neg hlt, if_neg hnull]
        have helems := @parseElemsReserving_guarded r pre.length depth _ _ hchild
          len.toInt.toNat (pre.length + (line.length + 3)) [] (by omega)
        rw [hdrop] at helems
        have hiff := @suffice_array r pre.length depth tail line len htext hnonneg
        rcases reserve_cases r pre.length len.toInt.toNat with
          ⟨hgranted, hfits⟩ | ⟨fault, hrefused, hsome, hnot⟩
        · simp only [hgranted]
          refine helems.congr (hiff.trans ⟨fun h => h.2.2, fun h => ⟨hframes, ?_, h⟩⟩)
          -- the first element is what the room on the stack is for
          exact fun hsome => ⟨(hfits hsome).1, (hfits hsome).2, h.frames hsome⟩
        · simp only [hrefused]
          exact .inr ⟨fun henough => hnot depth ((hiff.mp henough).2.1 hsome), fault, rfl⟩

/-- **One call of the parser**: it returns what it would with everything to take if there is
enough, and does not return if there is not. -/
theorem parseAtReserving_guarded (r : Resources) (buf : Bytes) (depth pos : Nat) :
    Guarded (r.Suffice pos depth (buf.drop pos)) (parseAt buf pos)
      (parseAtReserving r depth buf pos) := by
  -- the induction of `parseAt_sound`
  induction hm : buf.length - pos using Nat.strongRecOn generalizing depth pos with
  | ind m ih =>
    by_cases hframes : depth < r.frames
    swap
    · rw [parseAtReserving, if_neg hframes]
      exact .inr ⟨fun henough => hframes henough.frames, _, rfl⟩
    rcases Nat.lt_or_ge pos buf.length with hpos | hpos
    swap
    · rw [parseAt_end hpos, parseAtReserving, if_pos hframes, dif_neg (by omega),
        List.drop_of_length_le hpos]
      refine .inl ⟨suffice_of_front hframes fun text len tail hnil _ => ?_, rfl⟩
      cases hnil
    by_cases hstar : buf[pos] = 42
    swap
    · -- not an array
      rw [parseAtReserving, if_pos hframes, dif_pos hpos, if_neg hstar,
        List.drop_eq_getElem_cons hpos]
      refine .inl ⟨suffice_of_front hframes fun text len tail heq _ => ?_, rfl⟩
      exact absurd (List.cons.inj heq).1 hstar
    cases hfind : findCrlf buf (pos + 1) with
    | none =>
      have hplain : parseAt buf pos = .incomplete := by
        rw [parseAt_noLine hpos hfind, if_pos (by simp [hstar])]
      have hresult : parseAtReserving r depth buf pos = .ok .incomplete := by
        rw [parseAtReserving, if_pos hframes, dif_pos hpos, if_pos hstar]
        split
        · rfl
        · rename_i lineEnd hsome
          rw [hfind] at hsome
          cases hsome
      rw [hplain, hresult]
      refine .inl ⟨suffice_of_front hframes fun text len tail hdrop htext => ?_, rfl⟩
      -- a header would have a line end
      rw [List.drop_eq_getElem_cons hpos] at hdrop
      have hbuf : buf = (buf.take pos ++ [buf[pos]]) ++ (text ++ (crlf ++ tail)) := by
        rw [← (List.cons.inj hdrop).2, List.append_assoc, List.singleton_append,
          ← List.drop_eq_getElem_cons hpos, List.take_append_drop]
      have hline := findCrlf_line tail (buf.take pos ++ [buf[pos]]) htext.noCrlf
      rw [← hbuf, List.length_append, List.length_take_of_le hpos.le] at hline
      rw [List.length_singleton, hfind] at hline
      cases hline
    | some lineEnd =>
      obtain ⟨pre, t, line, tail, rfl, rfl, hline⟩ := shape_of_findCrlf hpos hfind
      obtain rfl : t = 42 := by simpa using hstar
      rw [List.drop_left]
      exact array_guarded hline hframes fun {cursor} hcursor => ih _ (by omega) _ cursor rfl

/-- `try_parse` on a buffer. -/
theorem tryParseReserving_cases (r : Resources) (p : RespParser) :
    (r.Suffice 0 0 p.buf ∧ p.tryParseReserving r = .ok p.tryParse) ∨
    (¬ r.Suffice 0 0 p.buf ∧ ∃ fault, p.tryParseReserving r = .error fault) := by
  rw [RespParser.tryParseReserving, RespParser.tryParse]
  rcases parseAtReserving_guarded r p.buf 0 0 with ⟨henough, hresult⟩ | ⟨hnot, fault, hresult⟩
  · rw [hresult]
    refine .inl ⟨henough, ?_⟩
    cases parseAt p.buf 0 <;> rfl
  · rw [hresult]
    exact .inr ⟨hnot, fault, rfl⟩

/-! ## Runs -/

/-- What the server does with a parser, and what there is to take when it does. -/
inductive ParserCall where
  | feed (data : Bytes)
  | tryParse (r : Resources)
  | reset

/-- Calls one after another: the results of the parse attempts and the parser in the end,
unless a fault ends the run. -/
def runReserving : List ParserCall → RespParser → Except Fault (List ParseResult × RespParser)
  | [], p => .ok ([], p)
  | .feed data :: rest, p => runReserving rest (p.feed data)
  | .reset :: rest, p => runReserving rest p.reset
  | .tryParse r :: rest, p =>
    match p.tryParseReserving r with
    | .error fault => .error fault
    | .ok (result, p) =>
      match runReserving rest p with
      | .error fault => .error fault
      | .ok (results, p) => .ok (result :: results, p)

/-- At each parse attempt, there is enough for what the buffer announces. -/
def SufficeRun : List ParserCall → RespParser → Prop
  | [], _ => True
  | .feed data :: rest, p => SufficeRun rest (p.feed data)
  | .reset :: rest, p => SufficeRun rest p.reset
  | .tryParse r :: rest, p => r.Suffice 0 0 p.buf ∧ SufficeRun rest p.tryParse.2

/-- **The parser survives a run exactly if there is enough for what is announced**: for any
stream, fed in any chunks, with parse attempts anywhere between, and whatever there is to take
at each of them. -/
theorem survives_iff (calls : List ParserCall) (p : RespParser) :
    (∃ results p', runReserving calls p = .ok (results, p')) ↔ SufficeRun calls p := by
  induction calls generalizing p with
  | nil => exact iff_of_true ⟨[], p, rfl⟩ trivial
  | cons call rest ih =>
    cases call with
    | feed data => exact ih _
    | reset => exact ih _
    | tryParse r =>
      rw [runReserving, SufficeRun, ← ih]
      rcases tryParseReserving_cases r p with ⟨henough, hresult⟩ | ⟨hnot, fault, hresult⟩
      · rw [hresult, and_iff_right henough]
        -- the attempt returns, so the rest decides
        constructor
        · rintro ⟨results, p', hok⟩
          cases hrest : runReserving rest p.tryParse.2 with
          | error fault =>
            simp only [hrest] at hok
            cases hok
          | ok after => exact ⟨after.1, after.2, rfl⟩
        · rintro ⟨results, p', hrest⟩
          simp only [hrest]
          exact ⟨_, _, rfl⟩
      · rw [hresult]
        refine iff_of_false ?_ fun h => hnot h.1
        rintro ⟨results, p', hok⟩
        cases hok

/-- The largest length that can be written, in a header with nothing behind it: with elements of
32 bytes, all memory in the world and no end of stack, `std::length_error` is thrown. -/
theorem not_survives :
    let generous : Resources := ⟨maxElements 32, fun _ _ => true, 2 ^ 64⟩
    let p : RespParser := RespParser.feed {} (ascii "*9223372036854775807\r\n")
    p.tryParseReserving generous = .error .lengthError ∧
    ¬ ∃ results p', runReserving
      [.feed (ascii "*9223372036854775807\r\n"), .tryParse generous] {} = .ok (results, p') := by
  intro generous p
  have hline : NoCrlf (ascii "9223372036854775807") := by decide
  have hread : parseI64 (ascii "9223372036854775807") = some 9223372036854775807 := by decide
  have hthrows : parseAtReserving generous 0 p.buf 0 = .error .lengthError := by
    have hframes : 0 < generous.frames := by decide
    have harray := parseAtReserving_array hframes [] [] hline
    rw [hread] at harray
    exact harray
  have hfault : p.tryParseReserving generous = .error .lengthError := by
    rw [RespParser.tryParseReserving, hthrows]
  refine ⟨hfault, ?_⟩
  rintro ⟨results, p', hok⟩
  rw [runReserving, runReserving, hfault] at hok
  cases hok

end Redix
