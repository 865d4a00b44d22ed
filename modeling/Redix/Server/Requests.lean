import Redix.Resp.Codec
import Redix.Server.Client

/-!
# The request stream of a connection

The parse loop restarts from scratch on a growing buffer whenever bytes arrive.
What a connection does is nevertheless a function of the bytes alone: it serves
the messages of the stream one after another, wherever `recv` and the calls of
`on_readable` cut it.

- `exchanges`: the purpose of the loop, in one recursion over the values;
- `after`: the effect of a drained stream on a session. The parse loop, one
  `on_readable` and a series of calls all have this form (`drainLoop_eq`,
  `onReadable_eq`, `readCalls_eq`);
- `chunking_unobservable`: two cuts of one stream leave equal sessions.
-/

namespace Redix

open Framing

/-- The exchanges over a list of values, the first of which is the `k`-th of its
connection, and the store after them: a value that is not a command is answered
with an error, a command with the reply of `dispatch`. -/
def exchanges (clock : Nat → UInt64) : Nat → Store → List RespValue → List Exchange × Store
  | _, store, [] => ([], store)
  | k, store, value :: rest =>
    let (command, reply, store) :=
      match parseCommand value with
      | .error reply => (none, reply, store)
      | .ok cmd => (some cmd, dispatch (clock k) cmd store)
    let (later, store) := exchanges clock (k + 1) store rest
    (⟨value, command, reply⟩ :: later, store)

/-- The `recv` results of a call that reads `chunks` and then finds nothing more. -/
def arrival : List Chunk → Incoming
  | [] => .wouldBlock
  | chunk :: rest => .data chunk (arrival rest)

/-- How a call of `on_readable` ends. -/
inductive ReadEnd where
  /-- There is nothing more for now. -/
  | drained
  /-- The peer has closed. -/
  | eof
  /-- A message is malformed. -/
  | malformed
  /-- `recv` failed. -/
  | failed
deriving DecidableEq

/-- The chunks that a call receives, unless a malformed message ends it. -/
def Incoming.chunks : Incoming → List Chunk
  | .data chunk next => chunk :: next.chunks
  | .wouldBlock => []
  | .eof => []
  | .failed => []

/-- How a call ends, unless a malformed message ends it. -/
def Incoming.ending : Incoming → ReadEnd
  | .data _ next => next.ending
  | .wouldBlock => .drained
  | .eof => .eof
  | .failed => .failed

/-- The byte stream that a series of calls receives. -/
def stream (calls : List (List Chunk)) : Bytes := (calls.flatten.map Chunk.bytes).flatten

namespace Session

variable (clock : Nat → UInt64) (aof : Aof)

/-- Successive calls of `on_readable`, until one of them closes the connection. -/
def readCalls : List (List Chunk) → Session → Bool × Session
  | [], s => (true, s)
  | chunks :: rest, s =>
    let (stays, s) := onReadable clock aof (arrival chunks) s
    if stays then readCalls rest s else (false, s)

/-- How a call on the session ends. -/
def readEnd : Incoming → Session → ReadEnd
  | .data chunk next, s =>
    let (waiting, s) := (s.feed chunk.bytes).drainLoop clock aof
    if waiting then readEnd next s else .malformed
  | .wouldBlock, _ => .drained
  | .eof, _ => .eof
  | .failed, _ => .failed

/-- The effect of a drained stream on a session: its values are served, and the
parser is left with its rest. -/
def after (s : Session) (d : Drained UInt8 RespValue) : Bool × Session :=
  (!d.failed, (d.values.foldl (serve clock aof) s).withParser ⟨d.rest⟩)

variable {clock aof} {s : Session}

/-! ## What the loops compute -/

/-- Serving does not look at the parser. -/
theorem serve_withParser (parser : RespParser) (value : RespValue) :
    (s.withParser parser).serve clock aof value =
      (s.serve clock aof value).withParser parser := by
  cases h : parseCommand value with
  | error reply => rw [serve_error h, serve_error h]; rfl
  | ok cmd => rw [serve_ok h, serve_ok h]; rfl

/-- Serving any messages does not look at the parser. -/
theorem foldl_serve_withParser (parser : RespParser) (values : List RespValue) :
    values.foldl (serve clock aof) (s.withParser parser) =
      (values.foldl (serve clock aof) s).withParser parser := by
  induction values generalizing s with
  | nil => rfl
  | cons value rest ih => rw [List.foldl_cons, serve_withParser, ih, List.foldl_cons]

/-- It does not matter what the parser held before. -/
theorem after_withParser (parser : RespParser) (d : Drained UInt8 RespValue) :
    (s.withParser parser).after clock aof d = s.after clock aof d := by
  rw [after, after, foldl_serve_withParser]
  rfl

/-- Effects compose: what is drained later is served later. -/
theorem after_after {d d' : Drained UInt8 RespValue} :
    (s.after clock aof d).2.after clock aof d' = s.after clock aof (d'.cons d.values) := by
  show ((d.values.foldl (serve clock aof) s).withParser ⟨d.rest⟩).after clock aof d' = _
  rw [after_withParser, after, after, Drained.cons, List.foldl_append]

/-- The parse loop serves the messages of the buffer. -/
theorem drainLoop_eq (s : Session) :
    s.drainLoop clock aof = s.after clock aof (respFraming.drain s.client.parser.buf) := by
  generalize hbuf : s.client.parser.buf = buf
  -- one message a turn, by the induction principle of `drain`
  induction buf using respFraming.drain_induction generalizing s with
  | complete buf value n h ih =>
    subst hbuf
    have hserve : (s.withParser ⟨s.client.parser.buf.drop n⟩).serve clock aof value =
        (s.after clock aof ⟨[value], s.client.parser.buf.drop n, false⟩).2 :=
      serve_withParser _ value
    rw [drainLoop_complete h, hserve, ih _ rfl, after_after, respFraming.drain_complete h]
  | incomplete buf h =>
    subst hbuf
    rw [drainLoop_incomplete h, respFraming.drain_incomplete h]
    rfl
  | error buf h =>
    subst hbuf
    rw [drainLoop_error h, respFraming.drain_error h]
    rfl

/-- Going on with what a drain left, unless it failed. -/
theorem after_andThen {run : Session → Bool × Session}
    (f : Bytes → Drained UInt8 RespValue)
    (hrun : ∀ s, run s = s.after clock aof (f s.client.parser.buf))
    (d : Drained UInt8 RespValue) :
    (if (s.after clock aof d).1 then run (s.after clock aof d).2
      else (false, (s.after clock aof d).2)) = s.after clock aof (d.andThen f) := by
  by_cases h : d.failed
  · have hclosed : (s.after clock aof d).1 = false := by simp [after, h]
    rw [Drained.andThen_failed h, hclosed, if_neg Bool.false_ne_true, ← hclosed]
  · have hstays : (s.after clock aof d).1 = true := by simp [after, h]
    rw [Drained.andThen_open h, if_pos hstays, hrun, after_after]
    rfl

/-- A chunk is drained. -/
theorem drainLoop_feed (s : Session) (chunk : Bytes) :
    (s.feed chunk).drainLoop clock aof =
      s.after clock aof (respFraming.drain (s.client.parser.buf ++ chunk)) := by
  rw [drainLoop_eq, feed, after_withParser]
  rfl

/-- One call serves the messages of its chunks, one chunk after another. -/
theorem onReadable_eq (chunks : List Chunk) (s : Session) :
    onReadable clock aof (arrival chunks) s =
      s.after clock aof
        (respFraming.feedAll s.client.parser.buf (chunks.map Chunk.bytes)) := by
  induction chunks generalizing s with
  | nil => rfl
  | cons chunk rest ih =>
    show (if _ then _ else _) = _
    rw [drainLoop_feed]
    exact after_andThen (respFraming.feedAll · (rest.map Chunk.bytes)) ih _

/-- A series of calls serves the messages of all its chunks: which call received
which chunk makes no difference. -/
theorem readCalls_eq (calls : List (List Chunk)) (s : Session) :
    readCalls clock aof calls s =
      s.after clock aof
        (respFraming.feedAll s.client.parser.buf (calls.flatten.map Chunk.bytes)) := by
  induction calls generalizing s with
  | nil => rfl
  | cons chunks rest ih =>
    show (if _ then _ else _) = _
    rw [onReadable_eq, List.flatten_cons, List.map_append, respFraming.feedAll_append]
    exact after_andThen (respFraming.feedAll · (rest.flatten.map Chunk.bytes)) ih _

/-! ## One call in full -/

/-- What one call receives, drained after what the parser holds. -/
def received (s : Session) (incoming : Incoming) : Drained UInt8 RespValue :=
  respFraming.feedAll s.client.parser.buf (incoming.chunks.map Chunk.bytes)

/-- A chunk goes behind what is in the buffer, and the chunks after it come in turn. -/
theorem received_data (s : Session) (chunk : Chunk) (next : Incoming) :
    s.received (.data chunk next) =
      (respFraming.drain (s.client.parser.buf ++ chunk.bytes)).andThen
        (respFraming.feedAll · (next.chunks.map Chunk.bytes)) := rfl

/-- **One call**: it serves the messages it receives, whatever ends it. -/
theorem onReadable_snd (incoming : Incoming) (s : Session) :
    (onReadable clock aof incoming s).2 = (s.after clock aof (s.received incoming)).2 := by
  induction incoming generalizing s with
  | wouldBlock => rfl
  | eof => rfl
  | failed => rfl
  | data chunk next ih =>
    rw [onReadable, drainLoop_feed, received_data]
    generalize respFraming.drain (s.client.parser.buf ++ chunk.bytes) = d
    show (if !d.failed then onReadable clock aof next (s.after clock aof d).2
      else (false, (s.after clock aof d).2)).2 = _
    -- a malformed message ends the reading, and what follows is not received
    by_cases h : d.failed
    · rw [Drained.andThen_failed h, if_neg (by simp [h])]
    · rw [Drained.andThen_open h, if_pos (by simp [h]), ih, after_after]
      rfl

/-- A malformed message ends the call before its last `recv`. -/
theorem readEnd_eq (incoming : Incoming) (s : Session) :
    readEnd clock aof incoming s =
      if (s.received incoming).failed then .malformed else incoming.ending := by
  induction incoming generalizing s with
  | wouldBlock => rfl
  | eof => rfl
  | failed => rfl
  | data chunk next ih =>
    rw [readEnd, drainLoop_feed, received_data]
    generalize respFraming.drain (s.client.parser.buf ++ chunk.bytes) = d
    show (if !d.failed then _ else _) = _
    by_cases h : d.failed
    · rw [Drained.andThen_failed h, if_neg (by simp [h]), if_pos h]
    · rw [Drained.andThen_open h, if_pos (by simp [h]), ih]
      rfl

/-- The connection stays exactly if the call ends for want of more. -/
theorem onReadable_fst (incoming : Incoming) (s : Session) :
    (onReadable clock aof incoming s).1 = true ↔ readEnd clock aof incoming s = .drained := by
  induction incoming generalizing s with
  | wouldBlock => exact iff_of_true rfl rfl
  | eof => exact iff_of_false nofun nofun
  | failed => exact iff_of_false nofun nofun
  | data chunk next ih =>
    rw [onReadable, readEnd]
    cases hwaiting : ((s.feed chunk.bytes).drainLoop clock aof).1 with
    | true => simp only [hwaiting, if_true, ih]
    | false => simp [hwaiting]

/-! ## What a run records -/

/-- The log and the store are those of the exchanges, and the write buffer has
their replies, in order. -/
theorem foldl_serve_exchanges (values : List RespValue) (s : Session) :
    (values.foldl (serve clock aof) s).log =
        s.log ++ (exchanges clock s.log.length s.store values).1 ∧
      (values.foldl (serve clock aof) s).store =
        (exchanges clock s.log.length s.store values).2 ∧
      (values.foldl (serve clock aof) s).client.writeBuf =
        s.client.writeBuf ++
          ((exchanges clock s.log.length s.store values).1.map Exchange.reply).flatten := by
  -- the clock is read by the number of exchanges in the log, which grows by one a message
  induction values generalizing s with
  | nil => simp [exchanges]
  | cons value rest ih =>
    obtain ⟨hlog, hstore, hwrite⟩ := ih (s.serve clock aof value)
    rw [List.foldl_cons, hlog, hstore, hwrite]
    cases h : parseCommand value with
    | error reply =>
      simp [serve_error h, answer, exchanges, h, Client.enqueueResponse]
    | ok cmd =>
      simp [serve_ok h, answer, exchanges, h, Client.enqueueResponse]

/-- Serving leaves the offset, and the client writing if there was anything to serve. -/
theorem foldl_serve_client (values : List RespValue) (s : Session) :
    (values.foldl (serve clock aof) s).client.writeOffset = s.client.writeOffset ∧
      (values.foldl (serve clock aof) s).client.state =
        if values = [] then s.client.state else .writing := by
  induction values generalizing s with
  | nil => exact ⟨rfl, rfl⟩
  | cons value rest ih =>
    -- a reply of any kind is enqueued, and that asks for output
    have hserve : (s.serve clock aof value).client.writeOffset = s.client.writeOffset ∧
        (s.serve clock aof value).client.state = .writing := by
      cases h : parseCommand value with
      | error reply => rw [serve_error h]; exact ⟨rfl, rfl⟩
      | ok cmd => rw [serve_ok h]; exact ⟨rfl, rfl⟩
    obtain ⟨hoffset, hstate⟩ := ih (s.serve clock aof value)
    rw [List.foldl_cons, hoffset, hstate, hserve.1, hserve.2]
    exact ⟨rfl, by simp⟩

/-- A call leaves the client writing if it served anything, and else as it was. -/
theorem onReadable_state (incoming : Incoming) (s : Session) :
    (onReadable clock aof incoming s).2.client.state =
      if (s.received incoming).values = [] then s.client.state else .writing := by
  rw [onReadable_snd]
  exact (foldl_serve_client _ s).2

end Session

/-- Each request is answered, in its turn. -/
theorem exchanges_values (clock : Nat → UInt64) (k : Nat) (store : Store)
    (values : List RespValue) :
    (exchanges clock k store values).1.map Exchange.value = values := by
  induction values generalizing k store with
  | nil => rfl
  | cons value rest ih => rw [exchanges, List.map_cons, ih]

/-- The commands dispatched are those of the values that are commands. -/
theorem exchanges_command (clock : Nat → UInt64) (k : Nat) (store : Store)
    (values : List RespValue) :
    (exchanges clock k store values).1.map Exchange.command =
      values.map fun value => (parseCommand value).toOption := by
  induction values generalizing k store with
  | nil => rfl
  | cons value rest ih =>
    rw [exchanges, List.map_cons, List.map_cons, ih]
    cases parseCommand value <;> rfl

/-! ## Encodings -/

section encodings

variable {clock : Nat → UInt64} {aof : Aof} {session : Session} {vs : List RespValue}

/-- The first call of a connection that receives encodings, and no more than these. -/
theorem received_encoded (hbuf : session.client.parser.buf = [])
    (hvs : ∀ v ∈ vs, NoCrlfErrors v ∧ SizesBelow (2 ^ 63) v) (chunk : Chunk)
    (hbytes : chunk.bytes = (vs.map respEncode).flatten) {next : Incoming}
    (hnext : next.chunks = []) : session.received (.data chunk next) = ⟨vs, [], false⟩ := by
  rw [Session.received, Incoming.chunks, hnext, hbuf, List.map_singleton,
    respFraming.feedAll_eq_drain _ respFraming.parse_nil, List.flatten_singleton, List.nil_append,
    hbytes]
  exact drain_respEncode hvs

/-- It serves them, and stays. -/
theorem onReadable_encoded (hbuf : session.client.parser.buf = [])
    (hvs : ∀ v ∈ vs, NoCrlfErrors v ∧ SizesBelow (2 ^ 63) v) (chunk : Chunk)
    (hbytes : chunk.bytes = (vs.map respEncode).flatten) :
    session.onReadable clock aof (.data chunk .wouldBlock) =
      session.after clock aof ⟨vs, [], false⟩ := by
  have hreceived : session.received (.data chunk .wouldBlock) = ⟨vs, [], false⟩ :=
    received_encoded hbuf hvs chunk hbytes rfl
  rw [← hreceived]
  exact Session.onReadable_eq [chunk] session

end encodings

/-! ## Chunking -/

/-- A connection that has received nothing yet serves the stream it receives. -/
theorem readCalls_stream (clock : Nat → UInt64) (aof : Aof) (store : Store)
    (calls : List (List Chunk)) :
    Session.readCalls clock aof calls { store } =
      Session.after clock aof { store } (respFraming.drain (stream calls)) := by
  rw [Session.readCalls_eq, respFraming.feedAll_eq_drain _ respFraming.parse_nil]
  rfl

/-- **Chunking is unobservable.** However one byte stream is cut into chunks, and
however the chunks are spread over calls of `on_readable`: the same values are
parsed, the same commands dispatched and the same replies enqueued, in the same
order, one for each value; the connection fails in one cut if and only if it does
in the other, and the parser keeps the same bytes. For no verdict of `parse_at` is
changed by what comes after the bytes it was given for. -/
theorem chunking_unobservable (clock : Nat → UInt64) (aof : Aof) (store : Store)
    {calls calls' : List (List Chunk)} (h : stream calls = stream calls') :
    let run := fun calls => Session.readCalls clock aof calls { store }
    let drained := respFraming.drain (stream calls)
    run calls = run calls' ∧
    (run calls).1 = !drained.failed ∧
    (run calls).2.client.parser.buf = drained.rest ∧
    (run calls).2.log.map Exchange.value = drained.values ∧
    (run calls).2.log = (exchanges clock 0 store drained.values).1 ∧
    (run calls).2.store = (exchanges clock 0 store drained.values).2 ∧
    (run calls).2.client.writeBuf = ((run calls).2.log.map Exchange.reply).flatten ∧
    (∀ buf pos value consumed, parseAt buf pos = .complete value consumed →
      ∀ more, parseAt (buf ++ more) pos = .complete value consumed) ∧
    (∀ buf pos, parseAt buf pos = .error → ∀ more, parseAt (buf ++ more) pos = .error) := by
  intro run drained
  have hrun : run calls = Session.after clock aof { store } drained :=
    readCalls_stream clock aof store calls
  -- draining does not depend on the cuts, and serving follows draining
  have hsame : run calls = run calls' := by
    show Session.readCalls clock aof calls _ = Session.readCalls clock aof calls' _
    rw [Session.readCalls_eq, Session.readCalls_eq, respFraming.feedAll_chunking h]
  obtain ⟨hlog, hstore, hwrite⟩ :
      (run calls).2.log = (exchanges clock 0 store drained.values).1 ∧
      (run calls).2.store = (exchanges clock 0 store drained.values).2 ∧
      (run calls).2.client.writeBuf =
        ((exchanges clock 0 store drained.values).1.map Exchange.reply).flatten := by
    rw [hrun]
    exact Session.foldl_serve_exchanges drained.values { store }
  refine ⟨hsame, ?_, ?_, ?_, hlog, hstore, ?_,
    fun _ _ _ _ hparse => parseAt_complete_append hparse,
    fun _ _ hparse => parseAt_error_append hparse⟩
  · rw [hrun]
    rfl
  · rw [hrun]
    rfl
  · rw [hlog, exchanges_values]
  · rw [hwrite, hlog]

/-- A `PING` split between the two bytes of a line end, the second part in a call
of its own. -/
theorem chunking_unobservable_ping :
    let ping : Chunk := ⟨ascii "*1\r\n$4\r\nPING\r\n", by decide, by decide⟩
    let head : Chunk := ⟨ascii "*1\r\n$4\r", by decide, by decide⟩
    let tail : Chunk := ⟨ascii "\nPING\r\n", by decide, by decide⟩
    Session.readCalls (fun _ => 7) {} [[ping]] { store := Store.empty } =
      Session.readCalls (fun _ => 7) {} [[head], [tail]] { store := Store.empty } :=
  (chunking_unobservable (fun _ => 7) {} Store.empty (by decide)).1

end Redix
