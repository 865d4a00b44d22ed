import Redix.Command.Lists
import Redix.Command.Replies
import Redix.Server.Requests

/-!
# Pipelines of requests

What a client that writes encoded requests gets back, end to end: request decoding,
command extraction, dispatch and reply encoding in one.

- `parseCommand_request`: a request is the command with the name in upper case;
- `requests_served`: the requests of a pipeline, however the stream is cut, get the
  replies of `dispatch`, one for each in order;
- `values_binary_safe`: so a value or a list that is written is read back byte for
  byte, whatever the bytes.
-/

namespace Redix

open Framing

variable {clock : Nat → UInt64} {aof : Aof}

/-! ## Requests and replies -/

/-- The words of a command come back from its message. -/
theorem stringElems_strings (words : List Bytes) :
    stringElems (words.map .string) = some words := by
  induction words with
  | nil => rfl
  | cons word rest ih => rw [List.map_cons, stringElems, ih]; rfl

/-- A command as a client writes it. -/
def Command.request (cmd : Command) : RespValue := .array ((cmd.name :: cmd.args).map .string)

/-- A command with its name in upper case, as it is dispatched. -/
def Command.normal (cmd : Command) : Command := { cmd with name := uppercase cmd.name }

/-- Whatever bytes its arguments have, a request is parsed to its command. -/
theorem parseCommand_request {cmd : Command} (h : uppercase cmd.name ≠ []) :
    parseCommand cmd.request = .ok cmd.normal := by
  have hne : (cmd.name :: cmd.args).map RespValue.string ≠ [] := List.cons_ne_nil _ _
  rw [Command.request, parseCommand, if_neg hne, stringElems_strings]
  exact if_neg h

/-- Dispatch commands one after another, the first of which is the `k`-th of its
connection: the replies, and the store afterwards. -/
def dispatchAll (clock : Nat → UInt64) : Nat → List Command → Store → List Bytes × Store
  | _, [], s => ([], s)
  | k, cmd :: rest, s =>
    let (reply, s) := dispatch (clock k) cmd s
    let (replies, s) := dispatchAll clock (k + 1) rest s
    (reply :: replies, s)

/-- A pipeline of requests is answered as its commands are, one after another. -/
theorem exchanges_requests {cmds : List Command} (h : ∀ cmd ∈ cmds, uppercase cmd.name ≠ []) :
    ∀ (k : Nat) (s : Store),
      (exchanges clock k s (cmds.map Command.request)).1.map Exchange.reply =
        (dispatchAll clock k (cmds.map Command.normal) s).1 := by
  induction cmds with
  | nil => exact fun _ _ => rfl
  | cons cmd rest ih =>
    intro k s
    have ih := ih fun cmd' hcmd' => h cmd' (List.mem_cons_of_mem cmd hcmd')
    rw [List.map_cons, List.map_cons, exchanges, parseCommand_request (h cmd List.mem_cons_self)]
    exact congrArg _ (ih _ _)

/-- **A pipeline is answered**, request by request, with the replies of `dispatch`,
however its bytes arrive. -/
theorem requests_served {cmds : List Command} (hname : ∀ cmd ∈ cmds, uppercase cmd.name ≠ [])
    (hfits : ∀ cmd ∈ cmds, Fits (cmd.name :: cmd.args)) {calls : List (List Chunk)}
    (hstream : stream calls = (cmds.map fun cmd => respEncode cmd.request).flatten)
    (store : Store) :
    (Session.readCalls clock aof calls { store }).2.log.map Exchange.reply =
      (dispatchAll clock 0 (cmds.map Command.normal) store).1 := by
  have hdrain := @drain_respEncode (cmds.map Command.request) fun v hv => by
    obtain ⟨cmd, hcmd, rfl⟩ := List.mem_map.mp hv
    exact strings_encodable (hfits cmd hcmd)
  rw [List.map_map] at hdrain
  have hlog := @Session.foldl_serve_exchanges clock aof (cmds.map Command.request) { store }
  -- the chunks and calls are gone: the stream is drained as a whole
  rw [readCalls_stream, hstream, ← exchanges_requests hname]
  show ((Session.after clock aof { store } (respFraming.drain _)).2.log).map Exchange.reply = _
  exact hdrain ▸ congrArg (List.map Exchange.reply) hlog.1

/-- Two requests, in particular, whose names are given up to letter case. -/
theorem two_requests_served {name name' upper upper' : Bytes} {args args' : List Bytes}
    (hname : uppercase name = upper) (hname' : uppercase name' = upper') (hne : upper ≠ [])
    (hne' : upper' ≠ []) (hfits : Fits (name :: args)) (hfits' : Fits (name' :: args'))
    {calls : List (List Chunk)}
    (hstream : stream calls = respEncode (Command.request ⟨name, args⟩) ++
      respEncode (Command.request ⟨name', args'⟩)) (store : Store) :
    (Session.readCalls clock aof calls { store }).2.log.map Exchange.reply =
      (dispatchAll clock 0 [⟨upper, args⟩, ⟨upper', args'⟩] store).1 := by
  subst hname hname'
  refine @requests_served clock aof [⟨name, args⟩, ⟨name', args'⟩] ?_ ?_ calls ?_ store
  · exact List.forall_mem_cons.mpr ⟨hne, List.forall_mem_singleton.mpr hne'⟩
  · exact List.forall_mem_cons.mpr ⟨hfits, List.forall_mem_singleton.mpr hfits'⟩
  · rw [hstream]
    simp only [List.map_cons, List.map_nil, List.flatten_cons, List.flatten_nil, List.append_nil]

/-! ## Reading back what was written -/

/-- A client reads the reply as the value, to the last byte. -/
def DecodesTo (reply : Bytes) (v : RespValue) : Prop :=
  ((RespParser.mk []).feed reply).tryParse = (.complete v reply.length, ⟨[]⟩)

/-- What is encoded can be decoded. -/
theorem respEncode_decodesTo {v : RespValue} (h : NoCrlfErrors v ∧ SizesBelow (2 ^ 63) v) :
    DecodesTo (respEncode v) v := by
  have hparse := tryParse_respEncode h.1 h.2 []
  rwa [List.append_nil] at hparse

section

variable {now : UInt64} {s : Store} {key : Bytes}

/-- `SET` without options. -/
theorem dispatch_setValue (value : Bytes) :
    dispatch now ⟨ascii "SET", [key, value]⟩ s =
      (respOk, ⟨s.data.put key (some ⟨.string value, 0⟩)⟩) := by
  have hrow : specTable.lookup (ascii "SET") = some .set := rfl
  rw [dispatch_eq hrow, Spec.set, serve_update]
  rfl

/-- `GET` of a string. -/
theorem dispatch_getValue {e : Entry} {value : Bytes} (h : findLive now s.data key = some e)
    (he : e.value = .string value) :
    dispatch now ⟨ascii "GET", [key]⟩ s = (respEncode (.string value), s) := by
  have hrow : specTable.lookup (ascii "GET") = some .get := rfl
  rw [dispatch_eq hrow, Spec.get, serve_look]
  show (((Look.bulk? stringValue some).run (findLive now s.data key)).bytes, s) = _
  obtain ⟨_, deadline⟩ := e
  obtain rfl := he
  rw [h, ← Reply.bulk_bytes]
  rfl

/-- The list an entry stands for: the empty one if there is no entry, and none if it has
another type. -/
def listOf? : Option Entry → Option (List Bytes)
  | none => some []
  | some e => listValue.get? e.value

/-- `RPUSH` onto a list, or onto nothing. -/
theorem dispatch_rpushList (now : UInt64) {values l : List Bytes} (hvalues : values ≠ [])
    (h : listOf? (findLive now s.data key) = some l) :
    (dispatch now ⟨ascii "RPUSH", key :: values⟩ s).2.data.find? key =
      some ⟨.list (l ++ values), (findLive now s.data key).elim 0 Entry.expiresAtMs⟩ := by
  have hrow : specTable.lookup (ascii "RPUSH") = some .rpush := rfl
  have hparse : someArgs Update.rpush values = .ok (.rpush values hvalues) := dif_neg hvalues
  have hgrow : (Store.pushBack values l).2 = l ++ values := pushBack_eq values l
  rw [dispatch_eq hrow, Spec.rpush, serve_update, hparse]
  simp only [performed, served]
  cases hlive : findLive now s.data key with
  | none =>
    rw [hlive] at h
    obtain rfl : [] = l := Option.some.inj h
    rw [← hgrow]
    exact FlatMap.find?_put_self _ _ _
  | some e =>
    rw [hlive] at h
    have hget : listValue.get? e.value = some l := h
    simp only [Update.rpush, Update.run, onType, hget]
    rw [← hgrow]
    exact FlatMap.find?_put_self _ _ _

/-- `LRANGE` of the whole list. -/
theorem dispatch_lrangeList (now : UInt64) {e : Entry} {list : List Bytes}
    (h : findLive now s.data key = some e) (he : e.value = .list list)
    (hsize : list.length < 2 ^ 63) :
    dispatch now ⟨ascii "LRANGE", [key, ascii "0", ascii "-1"]⟩ s =
      (respEncode (.array (list.map .string)), s) := by
  have hrow : specTable.lookup (ascii "LRANGE") = some .lrange := rfl
  rw [dispatch_eq hrow, Spec.lrange, serve_look]
  show (((Look.strings listValue fun data => slice data 0 (-1)).run
    (findLive now s.data key)).bytes, s) = _
  obtain ⟨_, deadline⟩ := e
  obtain rfl := he
  rw [h, ← Reply.strings_bytes]
  show ((Reply.strings (slice list 0 (-1))).bytes, s) = _
  rw [slice_all hsize]

/-- `SET`, and then `GET` at any other time. -/
theorem dispatchAll_setGet (value : Bytes) :
    (dispatchAll clock 0 [⟨ascii "SET", [key, value]⟩, ⟨ascii "GET", [key]⟩] s).1 =
      [respOk, respEncode (.string value)] := by
  have hlive : findLive (clock 1) (s.data.put key (some ⟨.string value, 0⟩)) key =
      some ⟨.string value, 0⟩ := by
    rw [findLive_eq, FlatMap.find?_put_self]
    rfl
  have hget : dispatch (clock 1) ⟨ascii "GET", [key]⟩
      ⟨s.data.put key (some ⟨.string value, 0⟩)⟩ = (respEncode (.string value), _) :=
    dispatch_getValue hlive rfl
  simp only [dispatchAll, dispatch_setValue, Nat.zero_add, hget]

/-- `RPUSH`, and then `LRANGE` while the list is still live. -/
theorem dispatchAll_rpushLrange {values l : List Bytes} (hvalues : values ≠ [])
    (h : listOf? (findLive (clock 0) s.data key) = some l)
    (hlive : ∀ e ∈ findLive (clock 0) s.data key, alive (clock 1) e = true)
    (hsize : (l ++ values).length < 2 ^ 63) :
    ∃ reply, (dispatchAll clock 0 [⟨ascii "RPUSH", key :: values⟩,
        ⟨ascii "LRANGE", [key, ascii "0", ascii "-1"]⟩] s).1 =
      [reply, respEncode (.array ((l ++ values).map .string))] := by
  have hfind := dispatch_rpushList (clock 0) hvalues h
  generalize hentry : (⟨.list (l ++ values), (findLive (clock 0) s.data key).elim 0
    Entry.expiresAtMs⟩ : Entry) = e at hfind
  -- RPUSH keeps the deadline, and by `hlive` it has not passed at the second reading
  have halive : alive (clock 1) e = true := by
    rw [← hentry]
    cases hbefore : findLive (clock 0) s.data key with
    | none => rfl
    | some e' => exact hlive e' hbefore
  have hread := dispatch_lrangeList (clock 1)
    (by rw [findLive_eq, hfind]; exact Option.filter_eq_some_iff.mpr ⟨rfl, halive⟩)
    (by rw [← hentry]) hsize
  simp only [dispatchAll, Nat.zero_add, hread]
  exact ⟨_, rfl⟩

end

/-- A name in any letter case is as long as in upper case. -/
theorem fits_request {name upper : Bytes} (h : uppercase name = upper)
    (hupper : upper.length < 2 ^ 63) {args : List Bytes} (hlen : args.length + 1 < 2 ^ 63)
    (hargs : ∀ arg ∈ args, arg.length < 2 ^ 63) : Fits (name :: args) := by
  refine ⟨hlen, List.forall_mem_cons.mpr ⟨?_, hargs⟩⟩
  rwa [← h, uppercase, List.length_map] at hupper

/-- **Values are binary-safe end to end.** For a client that writes `SET key value` and
`GET key`, the names in any letter case, the second reply decodes to the value; and for
one that writes `RPUSH key value ...` and `LRANGE key 0 -1`, it decodes to the list at
the key followed by the values, if the list is not past its deadline by then. -/
theorem values_binary_safe (clock : Nat → UInt64) (aof : Aof) (store : Store) (key : Bytes) :
    (∀ {set get value : Bytes} {calls : List (List Chunk)},
      uppercase set = ascii "SET" → uppercase get = ascii "GET" →
      key.length < 2 ^ 63 → value.length < 2 ^ 63 →
      stream calls = respEncode (Command.request ⟨set, [key, value]⟩) ++
        respEncode (Command.request ⟨get, [key]⟩) →
      ∃ first second, (Session.readCalls clock aof calls { store }).2.log.map Exchange.reply =
          [first, second] ∧
        DecodesTo second (.string value)) ∧
    (∀ {rpush lrange : Bytes} {values l : List Bytes} {calls : List (List Chunk)},
      uppercase rpush = ascii "RPUSH" → uppercase lrange = ascii "LRANGE" → values ≠ [] →
      Fits (rpush :: key :: values) → Fits (l ++ values) →
      listOf? (findLive (clock 0) store.data key) = some l →
      (∀ e ∈ findLive (clock 0) store.data key, alive (clock 1) e = true) →
      stream calls = respEncode (Command.request ⟨rpush, key :: values⟩) ++
        respEncode (Command.request ⟨lrange, [key, ascii "0", ascii "-1"]⟩) →
      ∃ first second, (Session.readCalls clock aof calls { store }).2.log.map Exchange.reply =
          [first, second] ∧
        DecodesTo second (.array ((l ++ values).map .string))) := by
  constructor
  · intro set get value calls hset hget hkey hvalue hstream
    refine ⟨respOk, respEncode (.string value), ?_,
      respEncode_decodesTo ⟨.string value, .string hvalue⟩⟩
    have hfits : Fits [set, key, value] := fits_request hset (by decide) (by simp)
      (List.forall_mem_cons.mpr ⟨hkey, List.forall_mem_singleton.mpr hvalue⟩)
    have hfits' : Fits [get, key] := fits_request hget (by decide) (by simp)
      (List.forall_mem_singleton.mpr hkey)
    -- the session serves the two requests whatever the cuts; the store is run once
    rw [two_requests_served hset hget (by decide) (by decide) hfits hfits' hstream,
      dispatchAll_setGet]
  · intro rpush lrange values l calls hrpush hlrange hvalues hfits hlist hl hlive hstream
    have hkey : key.length < 2 ^ 63 :=
      hfits.2 key (List.mem_cons_of_mem rpush List.mem_cons_self)
    have hfits' : Fits [lrange, key, ascii "0", ascii "-1"] :=
      fits_request hlrange (by decide) (by simp)
        (List.forall_mem_cons.mpr ⟨hkey, by decide⟩)
    obtain ⟨reply, hreplies⟩ := dispatchAll_rpushLrange hvalues hl hlive hlist.1
    refine ⟨reply, _, ?_, respEncode_decodesTo (strings_encodable hlist)⟩
    rw [two_requests_served hrpush hlrange (by decide) (by decide) hfits hfits' hstream, hreplies]

/-- A value that looks like the end of its message, and a list that is made new. -/
theorem values_binary_safe_crlf :
    let value : Bytes := [13, 10, 43, 0]
    let set : Chunk := ⟨respEncode (Command.request ⟨ascii "sEt", [ascii "k", value]⟩),
      by decide, by decide⟩
    let get : Chunk := ⟨respEncode (Command.request ⟨ascii "get", [ascii "k"]⟩),
      by decide, by decide⟩
    let rpush : Chunk := ⟨respEncode (Command.request ⟨ascii "RPUSH", [ascii "q", value]⟩),
      by decide, by decide⟩
    let lrange : Chunk :=
      ⟨respEncode (Command.request ⟨ascii "lrange", [ascii "q", ascii "0", ascii "-1"]⟩),
        by decide, by decide⟩
    (∃ first second, (Session.readCalls (fun _ => 7) {} [[set, get]]
        { store := Store.empty }).2.log.map Exchange.reply = [first, second] ∧
      DecodesTo second (.string value)) ∧
    ∃ first second, (Session.readCalls (fun _ => 7) {} [[rpush], [lrange]]
        { store := Store.empty }).2.log.map Exchange.reply = [first, second] ∧
      DecodesTo second (.array [.string value]) := by
  intro value set get rpush lrange
  obtain ⟨hvalue, -⟩ := values_binary_safe (fun _ => 7) {} Store.empty (ascii "k")
  obtain ⟨-, hlist⟩ := values_binary_safe (fun _ => 7) {} Store.empty (ascii "q")
  constructor
  · exact @hvalue (ascii "sEt") (ascii "get") value [[set, get]] (by decide) (by decide)
      (by decide) (by decide) rfl
  · exact @hlist (ascii "RPUSH") (ascii "lrange") [value] [] [[rpush], [lrange]] (by decide)
      (by decide) (by decide) (by decide) (by decide) rfl (by rintro e ⟨⟩) rfl

end Redix
