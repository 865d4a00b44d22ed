import Redix.Resp.Grammar

/-!
# Encoding and parsing are inverse

`respEncode` writes messages of the grammar (`respEncode_message`) as long as no
error text contains a line end, the one payload RESP does not length-prefix, and
sizes fit the 64-bit headers. Completeness of the parser then gives the round
trip on whole streams (`stream_roundTrip`); in the other direction every value
the parser ever returns satisfies both conditions (`Message.noCrlfErrors`,
`Message.sizesBelow`), so a decoded value survives being encoded again.

`parseAt_decides_grammar` states soundness and completeness as one
characterisation of the parser, on slices of the buffer.
-/

namespace Redix

/-! ## Encodable values -/

/-- No error message inside the value, at any depth, contains a line end. -/
inductive NoCrlfErrors : RespValue → Prop
  | null : NoCrlfErrors .null
  | string (s : Bytes) : NoCrlfErrors (.string s)
  | integer (n : Int64) : NoCrlfErrors (.integer n)
  | error {message : Bytes} (h : NoCrlf message) : NoCrlfErrors (.error message)
  | array {elems : List RespValue} (h : ∀ e ∈ elems, NoCrlfErrors e) :
      NoCrlfErrors (.array elems)

/-- Every string and every array inside the value has fewer than `bound`
elements. -/
inductive SizesBelow (bound : Nat) : RespValue → Prop
  | null : SizesBelow bound .null
  | string {s : Bytes} (h : s.length < bound) : SizesBelow bound (.string s)
  | integer (n : Int64) : SizesBelow bound (.integer n)
  | error (message : Bytes) : SizesBelow bound (.error message)
  | array {elems : List RespValue} (hlen : elems.length < bound)
      (h : ∀ e ∈ elems, SizesBelow bound e) : SizesBelow bound (.array elems)

/-- What is below a bound is below a larger one. -/
theorem SizesBelow.mono {bound bound' : Nat} (hle : bound ≤ bound') {v : RespValue}
    (h : SizesBelow bound v) : SizesBelow bound' v := by
  induction h with
  | null => exact .null
  | string hs => exact .string (Nat.lt_of_lt_of_le hs hle)
  | integer n => exact .integer n
  | error message => exact .error message
  | array hlen _ ih => exact .array (Nat.lt_of_lt_of_le hlen hle) ih

/-! ## The encoder writes messages -/

/-- A part is not longer than the whole. -/
theorem length_le_flatten {parts : List Bytes} {b : Bytes} (hb : b ∈ parts) :
    b.length ≤ parts.flatten.length :=
  (List.sublist_flatten_of_mem hb).length_le

/-- Non-empty parts are no more than the bytes of their concatenation. -/
theorem count_le_flatten {parts : List Bytes} (h : ∀ b ∈ parts, 0 < b.length) :
    parts.length ≤ parts.flatten.length := by
  induction parts with
  | nil => exact Nat.le_refl 0
  | cons b parts ih =>
    have hb := h b List.mem_cons_self
    have ih' := ih fun c hc => h c (List.mem_cons_of_mem b hc)
    rw [List.flatten_cons, List.length_append, List.length_cons]
    omega

/-- Elements are encoded one after another. -/
theorem respEncodeAll_eq (vs : List RespValue) :
    respEncodeAll vs = (vs.map respEncode).flatten := by
  induction vs with
  | nil => rw [respEncodeAll]; rfl
  | cons v vs ih => rw [respEncodeAll, ih]; rfl

/-- A size below `2^63` prints as a 64-bit numeral. -/
theorem intText_printNat {n : Nat} (h : n < 2 ^ 63) :
    IntText (Decimal.printNat n) (.ofInt n) ∧ (Int64.ofInt n).toInt = n := by
  have hn : (Int64.ofInt n).toInt = n := Int64.toInt_ofInt_of_le (by omega) (by omega)
  refine ⟨?_, hn⟩
  unfold IntText
  rw [hn]
  exact Decimal.numeral_printNat true n

/-- The printed form of a 64-bit integer is its numeral. -/
theorem intText_print (n : Int64) : IntText (Decimal.print n.toInt) n :=
  Decimal.numeral_print n.toInt

/-- The five type bytes. -/
theorem typeBytes : ascii "+" = [43] ∧ ascii "-" = [45] ∧ ascii ":" = [58] ∧
    ascii "$" = [36] ∧ ascii "*" = [42] :=
  ⟨rfl, rfl, rfl, rfl, rfl⟩

/-- **The encoder writes messages of the grammar.** -/
theorem respEncode_message {v : RespValue} (h : NoCrlfErrors v)
    (hsize : SizesBelow (2 ^ 63) v) : Message (respEncode v) v := by
  -- each kind is printed as its message is read; a length needs to fit what the header holds
  induction h with
  | null =>
    have hn : IntText (ascii "-1") (-1) := intText_print (-1)
    rw [respEncode]
    exact Message.nullBulk hn
  | string s =>
    cases hsize with
    | string hs =>
      obtain ⟨htext, hn⟩ := intText_printNat hs
      have : Message _ (.string s) := Message.bulk htext hn
      rw [respEncode]
      simpa [typeBytes] using this
  | integer n =>
    have := Message.integer (intText_print n)
    rw [respEncode]
    simpa [typeBytes] using this
  | error hm =>
    have := Message.error hm
    rw [respEncode]
    simpa [typeBytes] using this
  | @array elems helems ih =>
    cases hsize with
    | array hlen hsizes =>
      obtain ⟨htext, hn⟩ := intText_printNat hlen
      have hparts : ∀ p ∈ elems.map fun e => (respEncode e, e), Message p.1 p.2 := by
        intro p hp
        obtain ⟨e, he, rfl⟩ := List.mem_map.mp hp
        exact ih e he (hsizes e he)
      have := Message.array htext (by rw [List.length_map]; exact hn) hparts
      rw [respEncode, respEncodeAll_eq]
      simpa [typeBytes, Function.comp_def] using this

/-- No value is encoded as nothing. -/
theorem respEncode_length_pos (v : RespValue) : 0 < (respEncode v).length := by
  cases v with
  | null => rw [respEncode]; decide
  | string s => simp [respEncode, typeBytes]
  | integer n => simp [respEncode, typeBytes]
  | error message => simp [respEncode, typeBytes]
  | array elems => simp [respEncode, typeBytes]

/-- The sizes inside a value are bounded by the length of its encoding. -/
theorem NoCrlfErrors.sizesBelow {v : RespValue} (h : NoCrlfErrors v) :
    SizesBelow (respEncode v).length v := by
  induction h with
  | null => exact .null
  | string s =>
    rw [respEncode]
    exact .string (by simp only [List.length_append, crlf_length]; omega)
  | integer n => exact .integer n
  | error hm => exact .error _
  | @array elems _ ih =>
    -- an encoding has at least a byte, so the elements are no more than the bytes
    have hcount := count_le_flatten (List.forall_mem_map.mpr fun e (_ : e ∈ elems) =>
      respEncode_length_pos e)
    rw [respEncode, respEncodeAll_eq]
    rw [List.length_map] at hcount
    refine .array (by simp only [List.length_append, crlf_length]; omega) fun e he =>
      (ih e he).mono ?_
    have : (respEncode e).length ≤ _ := length_le_flatten (List.mem_map_of_mem he)
    simp only [List.length_append]
    omega

/-! ## Decoded values are encodable -/

/-- A message has no line end in its errors. -/
theorem Message.noCrlfErrors {b : Bytes} {v : RespValue} (h : Message b v) :
    NoCrlfErrors v := by
  induction h with
  | simple _ => exact .string _
  | error hline => exact .error hline
  | integer _ => exact .integer _
  | nullBulk _ => exact .null
  | bulk _ _ => exact .string _
  | nullArray _ => exact .null
  | array _ _ _ ih =>
    refine .array fun e he => ?_
    obtain ⟨p, hp, rfl⟩ := List.mem_map.mp he
    exact ih p hp

/-- The sizes inside a decoded value are bounded by the message's length. -/
theorem Message.sizesBelow {b : Bytes} {v : RespValue} (h : Message b v) :
    SizesBelow b.length v := by
  induction h with
  | simple _ => exact .string (by simp only [List.length_cons, List.length_append]; omega)
  | error _ => exact .error _
  | integer _ => exact .integer _
  | nullBulk _ => exact .null
  | bulk _ _ => exact .string (by simp only [List.length_cons, List.length_append]; omega)
  | nullArray _ => exact .null
  | array _ _ hparts ih =>
    have hcount := count_le_flatten (List.forall_mem_map.mpr fun p hp =>
      Nat.lt_of_lt_of_le (by omega) (hparts p hp).three_le)
    rw [List.length_map] at hcount
    refine .array ?_ fun e he => ?_
    · simp only [List.length_map, List.length_cons, List.length_append]
      omega
    obtain ⟨p, hp, rfl⟩ := List.mem_map.mp he
    refine (ih p hp).mono ?_
    have : p.1.length ≤ _ := length_le_flatten (List.mem_map_of_mem hp)
    simp only [List.length_cons, List.length_append]
    omega

/-! ## The round trip on streams -/

/-- `n` successive calls of `try_parse`, and the parser they leave. -/
def RespParser.tryParseN : Nat → RespParser → List ParseResult × RespParser
  | 0, p => ([], p)
  | n + 1, p =>
    let (result, p') := p.tryParse
    let (results, p'') := p'.tryParseN n
    (result :: results, p'')

/-- One call on a buffer that starts with a message takes exactly it. -/
theorem tryParse_message {b : Bytes} {v : RespValue} (h : Message b v) (rest : Bytes) :
    (RespParser.mk (b ++ rest)).tryParse = (.complete v b.length, ⟨rest⟩) := by
  have hparse := parseAt_message h [] rest
  rw [RespParser.tryParse]
  rw [List.nil_append, List.length_nil] at hparse
  simp only [hparse, List.drop_left]

/-- One call on a buffer that starts with an encoding takes exactly it. -/
theorem tryParse_respEncode {v : RespValue} (h : NoCrlfErrors v)
    (hsize : SizesBelow (2 ^ 63) v) (rest : Bytes) :
    (RespParser.mk (respEncode v ++ rest)).tryParse =
      (.complete v (respEncode v).length, ⟨rest⟩) :=
  tryParse_message (respEncode_message h hsize) rest

/-- What is encoded one after another is parsed one after another. -/
theorem tryParseN_respEncode {vs : List RespValue}
    (h : ∀ v ∈ vs, NoCrlfErrors v ∧ SizesBelow (2 ^ 63) v) (rest : Bytes) :
    RespParser.tryParseN vs.length ⟨(vs.map respEncode).flatten ++ rest⟩ =
      (vs.map fun v => .complete v (respEncode v).length, ⟨rest⟩) := by
  induction vs with
  | nil => rfl
  | cons v vs ih =>
    obtain ⟨hv, hsize⟩ := h v List.mem_cons_self
    have ih' := ih fun w hw => h w (List.mem_cons_of_mem v hw)
    rw [List.length_cons, RespParser.tryParseN, List.map_cons, List.flatten_cons,
      List.append_assoc, tryParse_respEncode hv hsize]
    simp only [ih', List.map_cons]

/-- A message at the front is the first one drained. -/
theorem drain_message {b : Bytes} {v : RespValue} (h : Message b v) (rest : Bytes) :
    respFraming.drain (b ++ rest) = (respFraming.drain rest).cons [v] := by
  have hparse : respFraming.parse (b ++ rest) = .complete v b.length :=
    parseAt_message h [] rest
  rw [respFraming.drain_complete hparse, List.drop_left]

/-- A buffer of encodings is drained of their values, to the end. -/
theorem drain_respEncode {vs : List RespValue}
    (h : ∀ v ∈ vs, NoCrlfErrors v ∧ SizesBelow (2 ^ 63) v) :
    respFraming.drain (vs.map respEncode).flatten = ⟨vs, [], false⟩ := by
  induction vs with
  | nil => exact respFraming.drain_incomplete respFraming.parse_nil
  | cons v vs ih =>
    obtain ⟨hv, hsize⟩ := h v List.mem_cons_self
    rw [List.map_cons, List.flatten_cons, drain_message (respEncode_message hv hsize),
      ih fun w hw => h w (List.mem_cons_of_mem v hw)]
    rfl

/-- The lengths fit in the 64-bit headers. -/
def Fits (words : List Bytes) : Prop :=
  words.length < 2 ^ 63 ∧ ∀ word ∈ words, word.length < 2 ^ 63

instance decidableFits (words : List Bytes) : Decidable (Fits words) :=
  inferInstanceAs (Decidable (_ ∧ _))

/-- An array of strings can be encoded, whatever bytes the strings have. -/
theorem strings_encodable {words : List Bytes} (h : Fits words) :
    NoCrlfErrors (.array (words.map .string)) ∧
      SizesBelow (2 ^ 63) (.array (words.map .string)) := by
  constructor
  · refine .array fun e he => ?_
    obtain ⟨word, -, rfl⟩ := List.mem_map.mp he
    exact .string word
  · refine .array (by rw [List.length_map]; exact h.1) fun e he => ?_
    obtain ⟨word, hword, rfl⟩ := List.mem_map.mp he
    exact .string (h.2 word hword)

/-- **Decode undoes encode, on whole streams.** A stream of encodings, whatever
bytes follow it, is parsed value by value, each call consuming exactly its
encoding; and every value the parser returns can be encoded and decoded again. -/
theorem stream_roundTrip :
    (∀ (vs : List RespValue) (rest : Bytes),
      (∀ v ∈ vs, NoCrlfErrors v ∧ SizesBelow (2 ^ 62) v) →
      RespParser.tryParseN vs.length
          ((RespParser.mk []).feed ((vs.map respEncode).flatten ++ rest)) =
        (vs.map fun v => .complete v (respEncode v).length, ⟨rest⟩)) ∧
    (∀ (buf : Bytes) (pos : Nat) (v : RespValue) (n : Nat),
      parseAt buf pos = .complete v n →
      NoCrlfErrors v ∧
      (buf.length < 2 ^ 62 →
        ∀ rest, ((RespParser.mk []).feed (respEncode v ++ rest)).tryParse =
          (.complete v (respEncode v).length, ⟨rest⟩))) := by
  constructor
  · intro vs rest h
    refine tryParseN_respEncode (fun v hv => ?_) rest
    exact ⟨(h v hv).1, (h v hv).2.mono (by omega)⟩
  · intro buf pos v n hparse
    -- what was accepted is a message, and its value prints as one again
    obtain ⟨b, tail, hdrop, -, hmsg⟩ := parseAt_sound hparse
    have hlen : b.length ≤ buf.length := by
      have hlen := congrArg List.length hdrop
      rw [List.length_drop, List.length_append] at hlen
      omega
    exact ⟨hmsg.noCrlfErrors, fun hbuf rest =>
      tryParse_respEncode hmsg.noCrlfErrors (hmsg.sizesBelow.mono (by omega)) rest⟩

/-- A pipeline of an array holding a string that looks like a line end, and an
error; two stray bytes follow. And a decoded integer, encoded again. -/
theorem stream_roundTrip_pipeline :
    (RespParser.tryParseN 2 ((RespParser.mk []).feed
        (([.array [.string [13, 10], .null], .error [69, 13]].map respEncode).flatten ++
          [42, 49])) =
      ([.array [.string [13, 10], .null], .error [69, 13]].map fun v =>
        .complete v (respEncode v).length, ⟨[42, 49]⟩)) ∧
    ((RespParser.mk []).feed (respEncode (.string [79, 75]) ++ [36])).tryParse =
      (.complete (.string [79, 75]) (respEncode (.string [79, 75])).length, ⟨[36]⟩) := by
  constructor
  · refine stream_roundTrip.1 [.array [.string [13, 10], .null], .error [69, 13]]
      [42, 49] fun v hv => ?_
    rcases List.mem_pair.mp hv with rfl | rfl
    · constructor
      · refine .array fun e he => ?_
        rcases List.mem_pair.mp he with rfl | rfl
        · exact .string _
        · exact .null
      · refine .array (by decide) fun e he => ?_
        rcases List.mem_pair.mp he with rfl | rfl
        · exact .string (by decide)
        · exact .null
    · exact ⟨.error (by decide), .error _⟩
  · have hline : NoCrlf [79, 75] := by decide
    have hmsg : Message [43, 79, 75, 13, 10] (.string [79, 75]) := Message.simple hline
    have hparse : parseAt [43, 79, 75, 13, 10] 0 = .complete (.string [79, 75]) 5 :=
      parseAt_message hmsg [] []
    exact (stream_roundTrip.2 _ 0 _ 5 hparse).2 (by decide) [36]

/-! ## The parser decides the grammar -/

/-- **The parser accepts exactly its grammar**: `Complete` with `consumed = n`
iff the `n` bytes from `pos` on are a message; there is at most one such `n` and
value; and a proper prefix of a message is `Incomplete`. -/
theorem parseAt_decides_grammar :
    (∀ (buf : Bytes) (pos : Nat) (v : RespValue) (n : Nat), pos < buf.length →
      (parseAt buf pos = .complete v n ↔
        n ≤ buf.length - pos ∧ Message ((buf.drop pos).take n) v)) ∧
    (∀ (buf : Bytes) (pos : Nat) (v v' : RespValue) (n n' : Nat),
      n ≤ buf.length - pos → n' ≤ buf.length - pos →
      Message ((buf.drop pos).take n) v → Message ((buf.drop pos).take n') v' →
      n = n' ∧ v = v') ∧
    (∀ (buf more : Bytes) (pos : Nat) (v : RespValue), pos < buf.length → more ≠ [] →
      Message (buf.drop pos ++ more) v → parseAt buf pos = .incomplete) := by
  refine ⟨fun buf pos v n hpos => ⟨fun h => ?_, fun ⟨hn, hmsg⟩ => ?_⟩,
    fun buf pos v v' n n' hn hn' h h' => ?_, fun buf more pos v hpos hext h => ?_⟩
  · obtain ⟨b, tail, hdrop, rfl, hmsg⟩ := parseAt_sound h
    have hlen := congrArg List.length hdrop
    rw [List.length_drop, List.length_append] at hlen
    rw [hdrop, List.take_left]
    exact ⟨by omega, hmsg⟩
  · have hparse := parseAt_message hmsg (buf.take pos) ((buf.drop pos).drop n)
    rw [List.take_append_drop, List.take_append_drop,
      List.length_take_of_le (by omega), List.length_take_of_le (by simpa using hn)]
      at hparse
    exact hparse
  · have heq : (buf.drop pos).take n ++ (buf.drop pos).drop n =
        (buf.drop pos).take n' ++ (buf.drop pos).drop n' := by
      rw [List.take_append_drop, List.take_append_drop]
    obtain ⟨hb, hv⟩ := h.unique h' heq
    have hlen := congrArg List.length hb
    rw [List.length_take_of_le (by simpa using hn),
      List.length_take_of_le (by simpa using hn')] at hlen
    exact ⟨hlen, hv⟩
  · -- extended by the missing bytes, the buffer parses to the message's end
    have hfull : parseAt (buf ++ more) pos = .complete v (buf.drop pos ++ more).length := by
      have := parseAt_message h (buf.take pos) []
      rwa [List.append_nil, ← List.append_assoc, List.take_append_drop,
        List.length_take_of_le (by omega)] at this
    have hextpos := List.length_pos_iff.mpr hext
    cases hverdict : parseAt buf pos with
    | incomplete => rfl
    | error =>
      rw [parseAt_error_append hverdict more] at hfull
      cases hfull
    | complete w n =>
      rw [parseAt_complete_append hverdict more] at hfull
      obtain ⟨b, tail, hdrop, rfl, -⟩ := parseAt_sound hverdict
      injection hfull with _ hlen
      rw [hdrop] at hlen
      simp only [List.length_append] at hlen
      omega

/-- `+OK` is parsed to its last byte, and a proper prefix of it is waited for. -/
theorem parseAt_decides_ok :
    parseAt [43, 79, 75, 13, 10] 0 = .complete (.string [79, 75]) 5 ∧
    parseAt [43, 79, 75, 13] 0 = .incomplete := by
  have hline : NoCrlf [79, 75] := by decide
  have hmsg : Message [43, 79, 75, 13, 10] (.string [79, 75]) := Message.simple hline
  exact ⟨(parseAt_decides_grammar.1 _ 0 _ 5 (by decide)).mpr ⟨by decide, hmsg⟩,
    parseAt_decides_grammar.2.2 [43, 79, 75, 13] [10] 0 _ (by decide) (by decide) hmsg⟩

end Redix
