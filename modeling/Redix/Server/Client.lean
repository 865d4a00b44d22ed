import Redix.Command.Basic
import Redix.Resp.Grammar

/-!
# The client connection (client.cpp, aof.cpp)

The reading half of a connection: `on_readable` takes what `recv` returns, feeds
it to the parser, and answers every request the parser completes.

Conventions:

- the descriptor is left out: what the successive `recv` calls of one
  `on_readable` return is a parameter (`Incoming`);
- a `Session` is the state one connection's loop works on. Its `log` is a record
  kept for the statements: the loop only uses its length, to number the clock
  readings. `clock k` is the reading under which the `k`-th request of the
  connection is executed, so that two runs can be compared at equal times.
-/

namespace Redix

/-! ## The append-only file -/

/-- `Aof`: its descriptor, `-1` when closed. -/
structure Aof where
  fd : Int := -1

/-- `Aof::is_open` -/
def Aof.isOpen (aof : Aof) : Bool := 0 ≤ aof.fd

/-- `Aof::append`: it accepts every command, and does nothing with it. -/
def Aof.append (_ : Aof) (_ : Command) : Except Bytes Unit := .ok ()

/-! ## Clients -/

/-- `ClientState` -/
inductive ClientState where
  | reading
  | writing
  | closing
deriving DecidableEq

/-- `Client` -/
structure Client where
  state : ClientState := .reading
  parser : RespParser := {}
  writeBuf : Bytes := []
  /-- How much of `writeBuf` has been sent. -/
  writeOffset : Nat := 0

/-- `Client::enqueue_response` -/
def Client.enqueueResponse (client : Client) (data : Bytes) : Client :=
  { client with writeBuf := client.writeBuf ++ data, state := .writing }

/-- The bytes one successful `recv` returns: at least one, and at most as many as
the local buffer takes. -/
structure Chunk where
  bytes : Bytes
  nonempty : bytes ≠ []
  fits : bytes.length ≤ 4096

/-- What the successive `recv` calls of one `on_readable` return. -/
inductive Incoming where
  | data (chunk : Chunk) (next : Incoming)
  /-- `EAGAIN` or `EWOULDBLOCK`: nothing more for now. -/
  | wouldBlock
  /-- `0`: the peer has closed. -/
  | eof
  /-- Any other failure. -/
  | failed

/-- One parsed value and what became of it: the command dispatched for it (if it
is one) and the reply enqueued. -/
structure Exchange where
  value : RespValue
  command : Option Command
  reply : Bytes

/-- The state of a connection's request loop. -/
structure Session where
  client : Client := {}
  store : Store
  log : List Exchange := []

namespace Session

/-- Replace the parser's state. -/
def withParser (s : Session) (parser : RespParser) : Session :=
  { s with client := { s.client with parser } }

/-- `parser_.feed` -/
def feed (s : Session) (data : Bytes) : Session :=
  s.withParser (s.client.parser.feed data)

/-- Enqueue the reply to a value. -/
def answer (s : Session) (value : RespValue) (command : Option Command)
    (reply : Bytes) : Session :=
  { s with
    client := s.client.enqueueResponse reply
    log := s.log ++ [⟨value, command, reply⟩] }

variable (clock : Nat → UInt64) (aof : Aof)

/-- The body of the parse loop, for a complete value. -/
def serve (s : Session) (value : RespValue) : Session :=
  match parseCommand value with
  -- well-formed RESP, but no command: it is answered, and the connection stays
  | .error reply => s.answer value none reply
  | .ok cmd =>
    let (response, store) := dispatch (clock s.log.length) cmd s.store
    let s := { s with store }
    if aof.isOpen && isWriteCommand cmd then
      match aof.append cmd with
      -- the command has been executed, but its reply is replaced
      | .error message => s.answer value (some cmd) (respError message)
      | .ok () => s.answer value (some cmd) response
    else s.answer value (some cmd) response

variable {clock aof}

/-- A message that is no command is answered with an error. -/
theorem serve_error {s : Session} {value : RespValue} {reply : Bytes}
    (h : parseCommand value = .error reply) :
    s.serve clock aof value = s.answer value none reply := by
  rw [serve, h]

/-- A command is answered with what `dispatch` returns: the append-only file never
gets in the way. -/
theorem serve_ok {s : Session} {value : RespValue} {cmd : Command}
    (h : parseCommand value = .ok cmd) :
    s.serve clock aof value =
      { s with store := (dispatch (clock s.log.length) cmd s.store).2 }.answer value
        (some cmd) (dispatch (clock s.log.length) cmd s.store).1 := by
  rw [serve, h]
  show (if _ then _ else _) = _
  by_cases hwrite : (aof.isOpen && isWriteCommand cmd) = true
  · rw [if_pos hwrite]
    rfl
  · rw [if_neg hwrite]
    rfl

/-- Serving leaves the parser as it is. -/
theorem parser_serve (s : Session) (value : RespValue) :
    (s.serve clock aof value).client.parser = s.client.parser := by
  cases h : parseCommand value with
  | error reply => rw [serve_error h]; rfl
  | ok cmd => rw [serve_ok h]; rfl

/-- A complete message leaves the parser with a shorter buffer. -/
theorem tryParse_shorter {p p' : RespParser} {value : RespValue} {consumed : Nat}
    (h : p.tryParse = (.complete value consumed, p')) :
    p'.buf.length < p.buf.length := by
  unfold RespParser.tryParse at h
  cases hparse : parseAt p.buf 0 with
  | complete v n =>
    simp only [hparse, Prod.mk.injEq] at h
    have hpos : 0 < n := respFraming.consumed_pos hparse
    have hle : n ≤ p.buf.length := respFraming.consumed_le hparse
    rw [← h.2, List.length_drop]
    omega
  | incomplete => simp [hparse] at h
  | error => simp [hparse] at h

variable (clock aof)

/-- The parse loop: serve what the parser completes until it waits (`true`) or
fails (`false`: the connection is to be closed). -/
def drainLoop (s : Session) : Bool × Session :=
  match _h : s.client.parser.tryParse with
  | (.incomplete, parser) => (true, s.withParser parser)
  | (.error, parser) => (false, s.withParser parser.reset)
  | (.complete value _, parser) => drainLoop ((s.withParser parser).serve clock aof value)
termination_by s.client.parser.buf.length
decreasing_by
  rw [parser_serve]
  exact tryParse_shorter _h

variable {clock aof}

/-- A complete message is taken from the buffer and served, and the loop goes on. -/
theorem drainLoop_complete {s : Session} {value : RespValue} {n : Nat}
    (h : parseAt s.client.parser.buf 0 = .complete value n) :
    s.drainLoop clock aof =
      drainLoop clock aof
        ((s.withParser ⟨s.client.parser.buf.drop n⟩).serve clock aof value) := by
  have htry : s.client.parser.tryParse =
      (.complete value n, ⟨s.client.parser.buf.drop n⟩) := by
    rw [RespParser.tryParse, h]
  rw [drainLoop]
  split <;> simp_all

/-- An incomplete message is left for the next chunk. -/
theorem drainLoop_incomplete {s : Session}
    (h : parseAt s.client.parser.buf 0 = .incomplete) :
    s.drainLoop clock aof = (true, s) := by
  have htry : s.client.parser.tryParse = (.incomplete, s.client.parser) := by
    rw [RespParser.tryParse, h]
  rw [drainLoop]
  split <;> simp_all [withParser]

/-- A malformed message ends the connection. -/
theorem drainLoop_error {s : Session} (h : parseAt s.client.parser.buf 0 = .error) :
    s.drainLoop clock aof = (false, s.withParser ⟨[]⟩) := by
  have htry : s.client.parser.tryParse = (.error, s.client.parser) := by
    rw [RespParser.tryParse, h]
  rw [drainLoop]
  split <;> simp_all [RespParser.reset]

variable (clock aof)

/-- `Client::on_readable` -/
def onReadable : Incoming → Session → Bool × Session
  | .data chunk next, s =>
    let (waiting, s) := (s.feed chunk.bytes).drainLoop clock aof
    if waiting then onReadable next s else (false, s)
  | .wouldBlock, s => (true, s)
  -- the peer has closed its side; what the write buffer holds is not looked at
  | .eof, s => (false, s)
  | .failed, s => (false, s)

end Session

end Redix
