import Redix.Base.Service
import Redix.Server.Accounting
import Redix.Server.Batches

/-!
# The server as one service

The callbacks of many connections work on one store, each with buffers, offsets and a parser
of its own, and a connection may go at any point. Seen from outside there is one object that
answers the requests of all clients, one at a time (`Service`), and each event is a few of its
steps.

- `respond`: the object; it answers one message at a clock reading;
- `serial`: the serial order of a run, and `input`: the bytes received from each client;
- `Serves`: the store and every log are those of the service. It passes from event to event
  (`deliver_serves`);
- `serial_execution`: so for whole runs, and what each client was asked is what its bytes say.
-/

namespace Redix

open Framing

/-! ## The object -/

/-- Answer one message at a clock reading. -/
def respond (request : UInt64 × RespValue) (store : Store) : Exchange × Store :=
  match parseCommand request.2 with
  | .error reply => (⟨request.2, none, reply⟩, store)
  | .ok cmd =>
    let (reply, store) := dispatch request.1 cmd store
    (⟨request.2, some cmd, reply⟩, store)

/-- Messages with their clock readings, the first of which is the `k`-th. -/
def timed (clock : Nat → UInt64) : Nat → List RespValue → List (UInt64 × RespValue)
  | _, [] => []
  | k, value :: rest => (clock k, value) :: timed clock (k + 1) rest

/-- What a connection does with its messages, the object does. -/
theorem exchanges_eq (clock : Nat → UInt64) (values : List RespValue) :
    ∀ (k : Nat) (store : Store),
      exchanges clock k store values = runSteps respond (timed clock k values) store := by
  induction values with
  | nil => exact fun _ _ => rfl
  | cons value rest ih =>
    intro k store
    rw [exchanges, timed, runSteps, respond]
    cases parseCommand value with
    | error reply => simp only [ih]
    | ok cmd => simp only [ih]

namespace Server

variable {s : Server}

/-! ## Requests and bytes of a run -/

/-- The requests that an event serves: the messages that become complete by what it reads. -/
def requests (r : Ready) (s : Server) : List (Nat × UInt64 × RespValue) :=
  match s.reader r with
  | none => []
  | some conn =>
    (timed r.outcomes.clock conn.log.length
      ((conn.session s.store).received r.outcomes.incoming).values).map fun request =>
        (conn.object, request)

/-- The serial order of a run: which client asks what, at which clock reading. -/
def serial : List Ready → Server → List (Nat × UInt64 × RespValue)
  | [], _ => []
  | r :: rest, s => s.requests r ++ serial rest (s.deliver r)

/-- The bytes that an event has received from a client. -/
def arriving (r : Ready) (s : Server) (object : Nat) : Bytes :=
  match s.reader r with
  | none => []
  | some conn =>
    if conn.object = object then (r.outcomes.incoming.chunks.map Chunk.bytes).flatten else []

/-- The bytes received from a client in a run. -/
def input : List Ready → Server → Nat → Bytes
  | [], _, _ => []
  | r :: rest, s, object => s.arriving r object ++ input rest (s.deliver r) object

/-! ## The store -/

/-- Closing a client leaves the store. -/
theorem closeClient_store (s : Server) (cause : Cause) (fd : Fd) :
    (s.closeClient cause fd).store = s.store := by
  rw [closeClient]
  cases s.clients.find? fd <;> rfl

/-- A change of interest leaves the store. -/
theorem setInterest_store (s : Server) (fd : Fd) (events : Events) (modified : Bool) :
    (s.setInterest fd events modified).store = s.store := by
  cases modified with
  | true => rfl
  | false => exact closeClient_store _ _ _

/-- Closing all of them leaves the store. -/
theorem closeAll_store (cause : Cause) (fds : List Fd) :
    ∀ s : Server, (fds.foldl (fun s fd => s.closeClient cause fd) s).store = s.store := by
  induction fds with
  | nil => exact fun _ => rfl
  | cons fd rest ih => exact fun s => (ih _).trans (s.closeClient_store cause fd)

/-- A shutdown leaves the store. -/
theorem shutdown_store (s : Server) : s.shutdown.store = s.store := by
  have hlistener (s : Server) : s.closeListener.store = s.store := by
    rw [closeListener]
    cases s.listenFd <;> rfl
  have hsignals (s : Server) : s.closeSignals.store = s.store := by
    rw [closeSignals]
    cases s.signalFd <;> rfl
  rw [shutdown_eq]
  exact (hsignals _).trans ((hlistener _).trans (closeAll_store _ _ _))

/-- Accepting leaves the store. -/
theorem onNewConnection_store (accepting : Accepting) :
    ∀ s : Server, (s.onNewConnection accepting).store = s.store := by
  induction accepting with
  | failed => exact fun _ => rfl
  | connection fd added next ih =>
    intro s
    rw [onNewConnection]
    split_ifs
    · exact (ih _).trans (setInterest_store _ fd _ added)
    · rfl

/-- Signals leave the store. -/
theorem onSignal_store (signals : SignalReads) (s : Server) :
    (s.onSignal signals).store = s.store := by
  induction signals with
  | done => rfl
  | signal terminates next ih =>
    rw [onSignal]
    split_ifs
    · exact s.shutdown_store
    · exact ih
    · rfl

/-- Reading for a client is all that changes the store. -/
theorem onClientReadable_store {fd : Fd} {conn : Connection}
    (hfind : s.clients.find? fd = some conn) (clock : Nat → UInt64) (incoming : Incoming)
    (modified : Bool) :
    (s.onClientReadable fd clock incoming modified).store =
      ((conn.session s.store).onReadable clock s.aof incoming).2.store := by
  rw [onClientReadable_of_some hfind rfl]
  split_ifs
  · exact setInterest_store _ _ _ _
  · rfl
  · exact closeClient_store _ _ _

/-- Writing to a client leaves the store. -/
theorem writeIfReady_store (s : Server) (fd : Fd) (events : Events) (o : Outcomes) :
    (s.writeIfReady fd events o).store = s.store := by
  rw [writeIfReady]
  split_ifs
  · cases hfind : s.clients.find? fd with
    | none => rw [onClientWritable_of_none hfind]
    | some conn =>
      rw [onClientWritable_of_some hfind rfl]
      split_ifs
      · exact setInterest_store _ _ _ _
      · rfl
      · exact closeClient_store _ _ _
  · rfl

/-- Only reading changes the store. -/
theorem deliver_store (r : Ready) (s : Server) :
    (s.deliver r).store =
      (s.reader r).elim s.store fun conn => ((conn.session s.store).onReadable
        r.outcomes.clock s.aof r.outcomes.incoming).2.store := by
  cases hfind : s.loop.callbacks.find? r.fd with
  | none => rw [deliver_of_none hfind, reader, hfind]; rfl
  | some registration =>
    obtain ⟨events, callback⟩ := registration
    rw [deliver_of_some hfind]
    -- accepting and signals leave the store to the readers
    cases callback with
    | listener =>
      have hreader : s.reader r = none := by rw [reader, hfind]
      rw [hreader, invoke]
      split_ifs
      · exact s.shutdown_store
      · exact onNewConnection_store _ s
    | signals =>
      have hreader : s.reader r = none := by rw [reader, hfind]
      rw [hreader, invoke]
      split_ifs
      · exact s.shutdown_store
      · exact onSignal_store _ s
    | client fd =>
      rw [reader_of_client hfind]
      show (s.onClientEvents fd r.events r.outcomes).store = _
      rw [onClientEvents_eq, Events.reads]
      by_cases hhangup : (r.events.error || r.events.hangup || r.events.peerHangup) = true
      · rw [hhangup, if_pos rfl]
        exact closeClient_store _ _ _
      · rw [if_neg hhangup, writeIfReady_store, Bool.eq_false_iff.mpr hhangup, readIfReady]
        cases r.events.input with
        | false => rfl
        | true =>
          cases hconn : s.clients.find? fd with
          | none => rw [if_pos rfl, onClientReadable_of_none hconn]; rfl
          | some conn => exact onClientReadable_store hconn _ _ _

/-! ## What is told of the clients -/

/-- What is told of a client: its answers, and the bytes received from it. -/
structure Told where
  log : List Exchange := []
  input : Bytes := []

/-- What a client has been sent, and what is still to be sent, are the replies to the messages
that its bytes begin with. -/
structure Told.True (told : Told) (conn : Connection) : Prop where
  log : conn.log = told.log
  messages : conn.log.map Exchange.value = (respFraming.drain told.input).values
  intact : conn.Intact

/-- Of a client that is still there, the rest of the bytes is in its parser. -/
structure Told.Live (told : Told) (conn : Connection) : Prop extends told.True conn where
  waiting : (respFraming.drain told.input).failed = false
  rest : (respFraming.drain told.input).rest = conn.client.parser.buf

/-- What was told of a client stays true while it is written to, and when it is closed. -/
theorem told_tracks : Tracks Told.Live Told.True {} where
  new object := by
    have hdrain : respFraming.drain [] = ⟨[], [], false⟩ :=
      respFraming.drain_incomplete respFraming.parse_nil
    refine ⟨⟨rfl, ?_, Connection.intact_new object⟩, ?_, ?_⟩
    · rw [hdrain]
      rfl
    · rw [hdrain]
    · rw [hdrain]
  write told conn out h := by
    -- flushing takes bytes from the output only
    have hparser : (conn.client.onWritable out).client.parser = conn.client.parser :=
      Client.onWritable_induction
        (P := fun client flushed => flushed.client.parser = client.parser)
        (fun _ _ => rfl) (fun _ _ _ => rfl) (fun _ _ _ _ _ ih => ih) conn.client out
    refine ⟨⟨h.log, h.messages, Connection.intact_onWritable h.intact out⟩, h.waiting, ?_⟩
    rw [h.rest]
    exact (congrArg RespParser.buf hparser).symm
  close _ _ h := h.toTrue

/-- What reading tells of a client. -/
def news (s : Server) (r : Ready) (told : Nat → Told) (conn : Connection) : Told :=
  { log := (told conn.object).log ++ (exchanges r.outcomes.clock conn.log.length s.store
      ((conn.session s.store).received r.outcomes.incoming).values).1
    input := (told conn.object).input ++
      (r.outcomes.incoming.chunks.map Chunk.bytes).flatten }

/-- Reading leaves what is told true. -/
theorem news_true {told : Nat → Told} {conn : Connection} (h : (told conn.object).Live conn)
    (r : Ready) :
    let result := (conn.session s.store).onReadable r.outcomes.clock s.aof r.outcomes.incoming
    (s.news r told conn).True (conn.resume result.2) ∧
      (result.1 = true → (s.news r told conn).Live (conn.resume result.2)) := by
  intro result
  have hlog := conn.log_onReadable s.store r.outcomes.clock s.aof r.outcomes.incoming
  -- the stream is drained on from where the parser had got
  have hdrain : respFraming.drain (s.news r told conn).input =
      ((conn.session s.store).received r.outcomes.incoming).cons
        (conn.log.map Exchange.value) := by
    have hopen : ¬ (respFraming.drain (told conn.object).input).failed = true := by
      rw [h.waiting]
      exact Bool.false_ne_true
    have hparse := respFraming.parse_rest (told conn.object).input
    rw [h.rest] at hparse
    rw [news, respFraming.drain_append, Drained.andThen_open hopen, h.messages, h.rest,
      Session.received]
    exact congrArg _ (respFraming.feedAll_eq_drain _ hparse).symm
  have htrue : (s.news r told conn).True (conn.resume result.2) := by
    refine ⟨?_, ?_, Connection.intact_onReadable h.intact _ _ _ _⟩
    · rw [hlog, news, ← h.log]
    · rw [hlog, hdrain, List.map_append, exchanges_values]
      rfl
  refine ⟨htrue, fun hstays => ⟨htrue, ?_, ?_⟩⟩
  · have hdrained := (Session.onReadable_fst _ _).mp hstays
    rw [Session.readEnd_eq] at hdrained
    rw [hdrain]
    split_ifs at hdrained with hfailed
    exact Bool.eq_false_iff.mpr hfailed
  · rw [hdrain]
    show _ = result.2.client.parser.buf
    rw [Session.onReadable_snd]
    rfl

/-! ## The simulation -/

/-- The server does what the service has done. -/
structure Serves (service : Service Nat Exchange Store) (input : Nat → Bytes) (s : Server) :
    Prop where
  store : s.store = service.state
  tracked : s.Tracked Told.Live Told.True {} fun object =>
    { log := service.log object, input := input object }

/-- **One event** is a few steps of the service, all for the client that is read for. -/
theorem deliver_serves {service : Service Nat Exchange Store} {input : Nat → Bytes}
    (h : s.Serves service input) {r : Ready} (hfresh : s.Admits r) :
    (s.deliver r).Serves (service.run respond (s.requests r)) fun object =>
      input object ++ s.arriving r object := by
  generalize htold : (fun object => ({ log := service.log object, input := input object } :
    Told)) = told
  have htracked : s.Tracked Told.Live Told.True {} told := htold ▸ h.tracked
  have hafter := deliver_tracked told_tracks htracked hfresh (s.news r told)
    fun conn hreader => by
      obtain ⟨fd, hfind⟩ := find?_of_reader hreader
      exact news_true (htracked.live fd conn hfind) r
  subst htold
  have hstore := s.deliver_store r
  unfold requests arriving
  -- an event that reads nothing serves nothing
  cases hreader : s.reader r with
  | none =>
    rw [hreader] at hafter hstore
    refine ⟨hstore.trans h.store, ?_⟩
    simp only [List.append_nil]
    exact hafter
  | some conn =>
    rw [hreader] at hafter hstore
    rw [Service.run_one, ← exchanges_eq, ← h.store]
    constructor
    · rw [hstore]
      show ((conn.session s.store).onReadable _ s.aof _).2.store = _
      rw [Session.onReadable_snd]
      exact (Session.foldl_serve_exchanges _ (conn.session s.store)).2.1
    -- only the reader has new bytes and a longer log
    · refine hafter.congr fun object => ?_
      by_cases hobject : object = conn.object
      · subst hobject
        simp only [toldAfter, Function.update_self, if_true, news]
      · have hne : ¬ conn.object = object := fun heq => hobject heq.symm
        simp only [toldAfter, Function.update_of_ne hobject, if_neg hne, List.append_nil]

/-- **Runs are simulated.** -/
theorem runOnce_serves (events : List Ready) :
    ∀ {s : Server} {service : Service Nat Exchange Store} {before : Nat → Bytes},
      s.Serves service before → AdmitsAll events s →
      (s.runOnce events).Serves (service.run respond (serial events s)) fun object =>
        before object ++ input events s object := by
  -- the requests of the batch are those of its first event and then of the rest
  induction events with
  | nil =>
    intro s service before h _
    simp only [input, List.append_nil]
    exact h
  | cons r rest ih =>
    intro s service before h hadmits
    have hrest := ih (deliver_serves h hadmits.1) hadmits.2
    rw [serial, Service.run_append]
    simp only [List.append_assoc] at hrest
    exact hrest

/-- The client is in the map, or has been destroyed. -/
def Has (s : Server) (conn : Connection) : Prop :=
  (∃ fd, s.clients.find? fd = some conn) ∨ ∃ cause, (conn, cause) ∈ s.record.destroyed

/-- After any events, the store is the service's, and what is told of each client is true. -/
theorem runOnce_told (store : Store) (aof : Aof) (signalFd listenFd : Fd)
    (events : List Ready) (h : AdmitsAll events (started store aof signalFd listenFd)) :
    let s₀ := started store aof signalFd listenFd
    let service := Service.run respond (serial events s₀) ⟨store, fun _ => []⟩
    (s₀.runOnce events).store = service.state ∧
    ∀ conn, (s₀.runOnce events).Has conn →
      Told.True ⟨service.log conn.object, input events s₀ conn.object⟩ conn := by
  intro s₀ service
  have hstart : s₀.Serves ⟨store, fun _ => []⟩ fun _ => [] := ⟨rfl, started_tracked⟩
  have hserves := runOnce_serves events hstart h
  simp only [List.nil_append] at hserves
  refine ⟨hserves.store, ?_⟩
  rintro conn (⟨fd, hfind⟩ | ⟨cause, hgone⟩)
  · exact (hserves.tracked.live fd conn hfind).toTrue
  · exact hserves.tracked.gone conn cause hgone

/-- **The server is one service.** Let a server be started and handle any events, over any
connections. Then there is one order of all requests, such that the store is what an object
that answers them one at a time is left with; and every client, there or gone, has been
answered by that object: its replies, sent or waiting to be sent, are the object's answers to
it, one for each message that the bytes received from it begin with. -/
theorem serial_execution (store : Store) (aof : Aof) (signalFd listenFd : Fd)
    (events : List Ready) (h : AdmitsAll events (started store aof signalFd listenFd)) :
    let s₀ := started store aof signalFd listenFd
    let s := s₀.runOnce events
    let service := Service.run respond (serial events s₀) ⟨store, fun _ => []⟩
    s.store = service.state ∧
    ∀ conn, s.Has conn →
      conn.log = service.log conn.object ∧
      conn.log.map Exchange.value = (respFraming.drain (input events s₀ conn.object)).values ∧
      conn.sent ++ conn.client.unsent = (conn.log.map Exchange.reply).flatten := by
  obtain ⟨hstore, htold⟩ := runOnce_told store aof signalFd listenFd events h
  refine ⟨hstore, fun conn hconn => ?_⟩
  have htrue := htold conn hconn
  exact ⟨htrue.log, htrue.messages, htrue.intact.stream⟩

/-- Two clients are accepted, each sends an `INCR`, and one of them closes its side. -/
theorem serial_execution_two :
    let incr : Chunk := ⟨ascii "*2\r\n$4\r\nINCR\r\n$1\r\nn\r\n", by decide, by decide⟩
    let events : List Ready := [
      { fd := 4, events := { input := true },
        outcomes := { accepting := .connection 7 true (.connection 8 true .failed) } },
      { fd := 8, events := { input := true }, outcomes := { incoming := .data incr .wouldBlock } },
      { fd := 7, events := { input := true }, outcomes := { incoming := .data incr .eof } }]
    let s₀ := started .empty {} 3 4
    (s₀.runOnce events).store =
        (Service.run respond (serial events s₀) ⟨.empty, fun _ => []⟩).state ∧
      ∀ conn, (s₀.runOnce events).Has conn → conn.object = 1 →
        conn.log.map Exchange.value = (respFraming.drain (input events s₀ 1)).values := by
  intro incr events s₀
  obtain ⟨hstore, hclients⟩ := serial_execution .empty {} 3 4 events
    ⟨⟨by decide, by decide, trivial⟩, trivial, trivial, trivial⟩
  exact ⟨hstore, fun conn hconn hobject => hobject ▸ (hclients conn hconn).2.1⟩

end Server

end Redix
