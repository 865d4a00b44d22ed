import Redix.Server.Pipeline
import Redix.Server.Serial

/-!
# What a client reads

A client knows the server by two byte streams: the one it writes, and what has been sent back
so far, which `send` may have cut off anywhere. Between them are the parser, the commands, the
reply encoders and the write buffer. The client is taken to read with a RESP parser of its
own.

- `respond_message`: a reply is one message, except to an unknown command whose name has a
  line end;
- `replies_read`: so the client reads one reply for each of its requests, in their order, as
  far as the replies have been sent in full, and never a malformed message.
-/

namespace Redix

open Framing

/-- The request is not an unknown command whose name has a line end. -/
def Exchange.Plain (x : Exchange) : Prop :=
  ∀ cmd, x.command = some cmd → (dispatchTable.lookup cmd.name).isSome ∨ NoCrlf cmd.name

/-! ## Replies -/

/-- What is no command is answered with a line. -/
theorem parseCommand_error_message {value : RespValue} {reply : Bytes}
    (h : parseCommand value = .error reply) : ∃ v, Message reply v := by
  unfold parseCommand at h
  split at h
  · split_ifs at h
    · cases h
      exact ⟨_, .error (by decide)⟩
    · split at h
      · split_ifs at h
        cases h
        exact ⟨_, .error (by decide)⟩
      · cases h
        exact ⟨_, .error (by decide)⟩
  · cases h
    exact ⟨_, .error (by decide)⟩

/-- The reply in an exchange is one message. The bound is that of a byte vector's size. -/
theorem respond_message {request : UInt64 × RespValue} {store : Store}
    (hplain : (respond request store).1.Plain)
    (hsize : (respond request store).1.reply.length < 2 ^ 63) :
    ∃ v, Message (respond request store).1.reply v := by
  rw [respond] at hplain hsize ⊢
  cases hparse : parseCommand request.2 with
  | error reply => exact parseCommand_error_message hparse
  | ok cmd =>
    rw [hparse] at hplain hsize
    have hname := hplain cmd rfl
    -- an unknown name is repeated in the error, so it is the one that must be plain
    rcases dispatch_cases request.1 cmd with ⟨hunknown, hrun⟩ | ⟨spec, p, -, -, hrun⟩
    · rw [dispatchTable_lookup, hunknown] at hname
      simp only [hrun]
      exact oneMessage_iff.mp
        (oneMessage_unknownCommand.mpr (hname.resolve_left Bool.false_ne_true))
    · simp only [hrun] at hsize ⊢
      exact ⟨_, Reply.message _ hsize⟩

/-- The replies of exchanges, as a client reads them. -/
theorem exists_values {log : List Exchange} (h : ∀ x ∈ log, ∃ v, Message x.reply v) :
    ∃ values, List.Forall₂ (fun x v => Message x.reply v) log values := by
  induction log with
  | nil => exact ⟨[], .nil⟩
  | cons x rest ih =>
    obtain ⟨hx, hrest⟩ := List.forall_mem_cons.mp h
    obtain ⟨v, hv⟩ := hx
    obtain ⟨values, hvalues⟩ := ih hrest
    exact ⟨v :: values, .cons hv hvalues⟩

/-- A message that the grammar has is decoded to its value. -/
theorem message_decodesTo {reply : Bytes} {v : RespValue} (h : Message reply v) :
    DecodesTo reply v := by
  have hparse := tryParse_message h []
  rwa [List.append_nil] at hparse

namespace Server

/-- Each answer of a run is one message. -/
theorem served_message {requests : List (Nat × UInt64 × RespValue)} {store : Store}
    {object : Nat} {x : Exchange}
    (hmem : x ∈ (Service.run respond requests ⟨store, fun _ => []⟩).log object)
    (hplain : x.Plain) (hsize : x.reply.length < 2 ^ 63) : ∃ v, Message x.reply v := by
  rcases Service.mem_log_run requests hmem with hnone | ⟨request, s, rfl⟩
  · exact absurd hnone List.not_mem_nil
  · exact respond_message hplain hsize

/-- **A client reads its replies.** In every run, let a client, there or gone, have sent no
unknown command whose name has a line end. Then the messages in the bytes it wrote were
answered one by one, and the bytes that it has been sent so far, drained by a RESP parser,
never fail and yield the values of those answers, in order: of exactly the answers that have
been sent in full. -/
theorem replies_read (store : Store) (aof : Aof) (signalFd listenFd : Fd) (events : List Ready)
    (h : AdmitsAll events (started store aof signalFd listenFd)) {conn : Connection}
    (hconn : ((started store aof signalFd listenFd).runOnce events).Has conn)
    (hplain : ∀ x ∈ conn.log, x.Plain) (hsizes : ∀ x ∈ conn.log, x.reply.length < 2 ^ 63) :
    let written := input events (started store aof signalFd listenFd) conn.object
    let read := respFraming.drain conn.sent
    conn.log.map Exchange.value = (respFraming.drain written).values ∧
    ∃ values, List.Forall₂ (fun x v => DecodesTo x.reply v) conn.log values ∧
      read.failed = false ∧ read.values <+: values ∧
      ∀ k ≤ conn.log.length,
        k ≤ read.values.length ↔ ((conn.log.take k).map Exchange.reply).flatten <+: conn.sent := by
  intro written read
  obtain ⟨-, hserves⟩ := runOnce_told store aof signalFd listenFd events h
  obtain ⟨hlog, hmessages, hintact⟩ := hserves conn hconn
  refine ⟨hmessages, ?_⟩
  obtain ⟨values, hvalues⟩ := exists_values fun x hx =>
    served_message (hlog ▸ hx) (hplain x hx) (hsizes x hx)
  have hreads : List.Forall₂ respFraming.Reads (conn.log.map Exchange.reply) values :=
    List.forall₂_map_left_iff.mpr (hvalues.imp fun _ _ hmsg => drain_message hmsg)
  -- what was sent is a prefix of the replies, so cutting their messages gives what was read
  obtain ⟨hopen, hprefix, hcount⟩ := Parser.drain_cut hreads hintact.stream.symm
  refine ⟨values, hvalues.imp fun _ _ hmsg => message_decodesTo hmsg, hopen, hprefix,
    fun k hk => ?_⟩
  rw [hcount k (by rwa [List.length_map]), List.map_take]

/-- Two requests arrive at once, and the second reply is cut off in its second byte. -/
theorem replies_read_half :
    let ping : Chunk := ⟨ascii "*1\r\n$4\r\nPING\r\n*1\r\n$4\r\nPING\r\n", by decide, by decide⟩
    let events : List Ready := [
      { fd := 4, events := { input := true },
        outcomes := { accepting := .connection 7 true .failed } },
      { fd := 7, events := { input := true, output := true },
        outcomes := { incoming := .data ping .wouldBlock, outgoing := .taken 8 .wouldBlock } }]
    ∃ conn, ((started .empty {} 3 4).runOnce events).Has conn ∧
      conn.sent = ascii "+PONG\r\n+P" ∧
      ∃ values, List.Forall₂ (fun x v => DecodesTo x.reply v) conn.log values ∧
        (respFraming.drain conn.sent).values <+: values := by
  intro ping events
  let values : List RespValue :=
    [.array [.string (ascii "PING")], .array [.string (ascii "PING")]]
  let o : Outcomes := { incoming := .data ping .wouldBlock, outgoing := .taken 8 .wouldBlock }
  let accepted := (started .empty {} 3 4).deliver
    { fd := 4, events := { input := true },
      outcomes := { accepting := .connection 7 true .failed } }
  let session := Connection.session { object := 0 } accepted.store
  have hping := @strings_encodable [ascii "PING"] (by decide)
  have hvalues : ∀ v ∈ values, NoCrlfErrors v ∧ SizesBelow (2 ^ 63) v :=
    List.forall_mem_cons.mpr ⟨hping, List.forall_mem_singleton.mpr hping⟩
  have hresult : session.onReadable o.clock {} o.incoming =
      session.after o.clock {} ⟨values, [], false⟩ := onReadable_encoded rfl hvalues ping rfl
  have hread := @onClientReadable_of_some accepted 7 { object := 0 } rfl _ _ _ hresult true
  have hrun : (started .empty {} 3 4).runOnce events =
      (accepted.onClientReadable 7 o.clock o.incoming true).writeIfReady 7
        { input := true, output := true } o := rfl
  obtain ⟨conn, hfind, hsent, hlog⟩ : ∃ conn,
      ((started .empty {} 3 4).runOnce events).clients.find? 7 = some conn ∧
        conn.sent = ascii "+PONG\r\n+P" ∧
        conn.log = values.map fun v => ⟨v, some ⟨ascii "PING", []⟩, ascii "+PONG\r\n"⟩ := by
    rw [hrun, hread]
    exact ⟨_, rfl, rfl, rfl⟩
  have hpong (x : Exchange) (hx : x ∈ conn.log) :
      x.command = some ⟨ascii "PING", []⟩ ∧ x.reply = ascii "+PONG\r\n" := by
    rw [hlog] at hx
    obtain ⟨v, -, rfl⟩ := List.mem_map.mp hx
    exact ⟨rfl, rfl⟩
  obtain ⟨-, values, hvalues, -, hprefix, -⟩ := replies_read .empty {} 3 4 events
    ⟨⟨by decide, trivial⟩, trivial, trivial⟩ (.inl ⟨7, hfind⟩)
    (fun x hx cmd hcmd => by
      rw [(hpong x hx).1] at hcmd
      cases hcmd
      exact .inl (by decide))
    (fun x hx => by rw [(hpong x hx).2]; decide)
  exact ⟨conn, .inl ⟨7, hfind⟩, hsent, values, hvalues, hprefix⟩

end Server

end Redix
