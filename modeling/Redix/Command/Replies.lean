import Redix.Command.Effects
import Redix.Resp.Codec

/-!
# Replies are messages

Each reply of a command in the table is one RESP message: texts of a user are
sent with their length in front of them, and the line-delimited replies are
fixed texts (`Reply.message`). The reply to an unknown command is the exception.
It copies the name into a line, so it is one message exactly when the name has no
line end inside (`reply_one_message`); otherwise a client reads the line up to
there, and takes the rest for the next reply (`unknownCommand_two_replies`).
-/

namespace Redix

/-- The value a client decodes a reply to. -/
def Reply.value : Reply → RespValue
  | simple text _ => .string text
  | error message _ => .error message
  | integer n => .integer n
  | bulk s => .string s
  | null => .null
  | array elems => .array (elems.map fun
    | some value => .string value
    | none => .null)

/-- No reply has a line end in an error. -/
theorem Reply.noCrlfErrors (r : Reply) : NoCrlfErrors r.value := by
  cases r with
  | simple text h => exact .string text
  | error message h => exact .error h
  | integer n => exact .integer n
  | bulk s => exact .string s
  | null => exact .null
  | array elems =>
    refine .array fun e he => ?_
    obtain ⟨o, -, rfl⟩ := List.mem_map.mp he
    cases o with
    | none => exact .null
    | some value => exact .string value

/-- A bulk string is encoded as one. -/
theorem Reply.bulk_bytes (s : Bytes) : (Reply.bulk s).bytes = respEncode (.string s) := by
  rw [respEncode]
  rfl

/-- An array of strings is encoded as one. -/
theorem Reply.strings_bytes (values : List Bytes) :
    (Reply.strings values).bytes = respEncode (.array (values.map .string)) := by
  rw [respEncode]
  show respArray ((values.map some).map _) = _
  rw [List.map_map]
  rfl

/-- **Every reply value is sent as one message.** The bound is that of a byte
vector's size. -/
theorem Reply.message (r : Reply) (hsize : r.bytes.length < 2 ^ 63) :
    Message r.bytes r.value := by
  have hencoded (h : r.bytes = respEncode r.value) : Message r.bytes r.value := by
    rw [h] at hsize ⊢
    exact respEncode_message r.noCrlfErrors (r.noCrlfErrors.sizesBelow.mono (by omega))
  cases r with
  | simple text h => exact .simple h
  | error message h => exact .error h
  | integer n => exact hencoded (by rw [value, respEncode]; rfl)
  | bulk s => exact hencoded (by rw [value, respEncode]; rfl)
  | null => exact hencoded (by rw [value, respEncode]; rfl)
  | array elems => exact hencoded (by rw [value, respEncode]; rfl)

/-! ## No reply is empty -/

/-- An error is not nothing. -/
theorem respError_ne_nil (msg : Bytes) : respError msg ≠ [] := List.cons_ne_nil _ _

/-- No reply is nothing. -/
theorem Reply.bytes_ne_nil (r : Reply) : r.bytes ≠ [] := by
  cases r <;> exact List.cons_ne_nil _ _

/-- No command is answered with nothing. -/
theorem dispatch_ne_nil (now : UInt64) (cmd : Command) (s : Store) :
    (dispatch now cmd s).1 ≠ [] := by
  rcases dispatch_cases now cmd with ⟨-, hrun⟩ | ⟨spec, p, -, -, hrun⟩
  · rw [hrun]
    exact respError_ne_nil _
  · rw [hrun]
    exact Reply.bytes_ne_nil _

/-- No message is refused with nothing. -/
theorem parseCommand_error_ne_nil {value : RespValue} {reply : Bytes}
    (h : parseCommand value = .error reply) : reply ≠ [] := by
  unfold parseCommand at h
  -- it is refused as no array, as one without a name, and for an element that is no string
  split at h
  · split_ifs at h
    · cases h
      exact respError_ne_nil _
    · split at h
      · split_ifs at h
        cases h
        exact respError_ne_nil _
      · cases h
        exact respError_ne_nil _
  · cases h
    exact respError_ne_nil _

/-! ## One message -/

/-- An empty parser that is fed the bytes takes all of them for one message. -/
def OneMessage (reply : Bytes) : Prop :=
  ∃ v, ((RespParser.mk []).feed reply).tryParse = (.complete v reply.length, ⟨[]⟩)

/-- The parser takes what the grammar has. -/
theorem oneMessage_iff {reply : Bytes} : OneMessage reply ↔ ∃ v, Message reply v := by
  constructor
  · rintro ⟨v, h⟩
    refine ⟨v, ?_⟩
    have hparse : parseAt reply 0 = .complete v reply.length := by
      simp only [RespParser.feed, List.nil_append, RespParser.tryParse] at h
      cases hverdict : parseAt reply 0 with
      | incomplete => rw [hverdict] at h; cases h
      | error => rw [hverdict] at h; cases h
      | complete w n => rw [hverdict] at h; exact (Prod.mk.inj h).1
    obtain ⟨b, tail, hdrop, hlen, hmsg⟩ := parseAt_sound hparse
    -- the message is the whole reply, as its length says
    have hb : b = reply := by
      rw [List.drop_zero] at hdrop
      have := congrArg List.length hdrop
      rw [List.length_append] at this
      rw [hdrop, List.length_eq_zero_iff.mp (show tail.length = 0 by omega), List.append_nil]
    exact hb ▸ hmsg
  · rintro ⟨v, h⟩
    refine ⟨v, ?_⟩
    have hparse := tryParse_message h []
    rw [List.append_nil] at hparse
    exact hparse

/-- An error line is one message exactly if its text is one line. -/
theorem oneMessage_respError {text : Bytes} : OneMessage (respError text) ↔ NoCrlf text := by
  have hbytes : respError text = 45 :: (text ++ crlf) := rfl
  rw [oneMessage_iff]
  constructor
  · rintro ⟨v, h⟩
    generalize hreply : respError text = reply at h
    rw [hbytes] at hreply
    -- of the messages only an error starts with this sign
    cases h with
    | @error line hline =>
      rwa [List.append_cancel_right (List.cons.inj hreply).2]
    | simple => cases (List.cons.inj hreply).1
    | integer => cases (List.cons.inj hreply).1
    | nullBulk => cases (List.cons.inj hreply).1
    | bulk => cases (List.cons.inj hreply).1
    | nullArray => cases (List.cons.inj hreply).1
    | array => cases (List.cons.inj hreply).1
  · exact fun h => ⟨.error text, .error h⟩

/-! ## The reply to an unknown command -/

/-- Behind bytes without a carriage return, a line is as much one line. -/
theorem noCrlf_append_of_noCr {pre line : Bytes} (hpre : 13 ∉ pre) :
    NoCrlf (pre ++ line) ↔ NoCrlf line := by
  induction pre with
  | nil => rfl
  | cons c pre ih =>
    obtain ⟨hc, hpre⟩ := not_or.mp (List.mem_cons.not.mp hpre)
    rw [List.cons_append, noCrlf_cons_iff, ih hpre]
    exact and_iff_right fun h => hc h.1.symm

/-- With a quote behind it, a line is as much one line. -/
theorem noCrlf_append_quote {line : Bytes} : NoCrlf (line ++ ascii "'") ↔ NoCrlf line := by
  induction line with
  | nil => exact iff_of_true (by decide) (by decide)
  | cons c line ih =>
    rw [List.cons_append, noCrlf_cons_iff, noCrlf_cons_iff, ih]
    cases line with
    | nil =>
      have hquote : ¬ ((ascii "'").head? = some 10) := by decide
      simp [hquote]
    | cons d line => rfl

/-- The reply quotes the name in a line: it is one message exactly if the name has
no line end inside. -/
theorem oneMessage_unknownCommand {name : Bytes} :
    OneMessage (unknownCommand name) ↔ NoCrlf name := by
  rw [unknownCommand, oneMessage_respError, List.append_assoc,
    noCrlf_append_of_noCr (by decide), noCrlf_append_quote]

/-- The two tables have the same names. -/
theorem dispatchTable_lookup (name : Bytes) :
    (dispatchTable.lookup name).isSome = (specTable.lookup name).isSome := by
  rw [dispatchTable_eq, lookup_map]
  exact Option.isSome_map

/-- **When a reply is one message**: exactly when the name is in the dispatch
table or has no line end inside. The bound is that of a byte vector's size. -/
theorem reply_one_message (now : UInt64) (cmd : Command) (s : Store)
    (hsize : (dispatch now cmd s).1.length < 2 ^ 63) :
    OneMessage (dispatch now cmd s).1 ↔
      (dispatchTable.lookup cmd.name).isSome ∨ NoCrlf cmd.name := by
  rw [dispatchTable_lookup]
  rcases dispatch_cases now cmd with ⟨hunknown, hrun⟩ | ⟨spec, p, hrow, -, hrun⟩
  · rw [hrun, hunknown, oneMessage_unknownCommand]
    exact (or_iff_right Bool.false_ne_true).symm
  · rw [hrun] at hsize ⊢
    exact iff_of_true (oneMessage_iff.mpr ⟨_, Reply.message _ hsize⟩)
      (.inl (List.lookup_isSome_iff.mpr ⟨_, hrow, beq_self_eq_true _⟩))

/-- `ECHO` of a text with a line end, and an unknown name without one. -/
theorem reply_one_message_echo :
    OneMessage (dispatch 9 ⟨ascii "ECHO", [ascii "a\r\nb"]⟩ Store.empty).1 ∧
    OneMessage (dispatch 9 ⟨ascii "NOPE", []⟩ Store.empty).1 :=
  ⟨(reply_one_message 9 _ _ (by decide)).mpr (.inl (by decide)),
    (reply_one_message 9 _ _ (by decide)).mpr (.inr (by decide))⟩

/-- **One request, two replies.** A request whose only element is `X`, a line end
and `+OK` is a command, whatever the store, and its reply is read as an error and
then an acknowledgement. -/
theorem unknownCommand_two_replies :
    let name := ascii "X\r\n+OK"
    parseCommand (.array [.string name]) = .ok ⟨name, []⟩ ∧
    ∀ now s,
      ¬ OneMessage (dispatch now ⟨name, []⟩ s).1 ∧
      RespParser.tryParseN 2 ((RespParser.mk []).feed (dispatch now ⟨name, []⟩ s).1) =
        ([.complete (.error (ascii "ERR unknown command 'X")) 25,
          .complete (.string (ascii "OK'")) 6], ⟨[]⟩) := by
  intro name
  refine ⟨by decide, fun now s => ?_⟩
  have hunknown : specTable.lookup name = none := by rfl
  have hrun : dispatch now ⟨name, []⟩ s = (unknownCommand name, s) := dispatch_unknown hunknown
  rw [hrun]
  refine ⟨fun h => absurd (oneMessage_unknownCommand.mp h) (by decide), ?_⟩
  have hfirst : Message _ (.error (ascii "ERR unknown command 'X")) := .error (by decide)
  have hsecond : Message _ (.string (ascii "OK'")) := .simple (by decide)
  have hsplit : unknownCommand name =
      45 :: (ascii "ERR unknown command 'X" ++ crlf) ++ 43 :: (ascii "OK'" ++ crlf) := rfl
  have hparse := tryParse_message hfirst (43 :: (ascii "OK'" ++ crlf))
  have hparse' := tryParse_message hsecond []
  rw [List.append_nil] at hparse'
  rw [RespParser.feed, List.nil_append, hsplit]
  simp only [RespParser.tryParseN, hparse, hparse']
  rfl

end Redix
