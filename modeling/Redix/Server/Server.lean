import Redix.Server.EventLoop
import Redix.Server.Output
import Redix.Server.Requests

/-!
# The server (server.cpp)

One thread: `epoll_wait` reports a batch of events, and the loop hands each of them
to the callback registered under its descriptor. The callbacks accept connections,
read and write on behalf of the clients, close them, and shut the server down.

Conventions:

- a descriptor that is closed, `-1`, is `none`. A call on it fails;
- what the system calls of one callback return is a parameter (`Outcomes`);
- `Record` and the fields `object`, `log` and `sent` of a `Connection` are records
  kept for the statements: the server does not read them, except that `log` numbers
  the clock readings of a connection.
-/

namespace Redix

/-! ## Clients and callbacks -/

/-- The callbacks the server registers. The three lambdas for a client, on its
acceptance and at either change of its interest set, have one text. -/
inductive Callback where
  | listener
  | signals
  | client (fd : Fd)

/-- A `Client` object in `clients_`. -/
structure Connection where
  /-- Which of the objects ever made this is. -/
  object : Nat
  client : Client := {}
  /-- The requests served so far. -/
  log : List Exchange := []
  /-- The bytes that `send` took so far. -/
  sent : Bytes := []

/-- The client as `on_readable` works on it. -/
def Connection.session (conn : Connection) (store : Store) : Session :=
  { client := conn.client, store, log := conn.log }

/-- The client as `on_readable` leaves it. -/
def Connection.resume (conn : Connection) (session : Session) : Connection :=
  { conn with client := session.client, log := session.log }

/-- The client as `on_writable` leaves it. -/
def Connection.flushed (conn : Connection) (flushed : Flushed) : Connection :=
  { conn with client := flushed.client, sent := conn.sent ++ flushed.sent }

/-- Why a client is destroyed. -/
inductive Cause where
  /-- `EPOLLERR`, `EPOLLHUP` or `EPOLLRDHUP`. -/
  | hangup
  /-- `on_readable` returned false. -/
  | read (ending : ReadEnd)
  /-- `on_writable` returned false. -/
  | write
  /-- `epoll_ctl` failed. -/
  | control
  | shutdown
deriving DecidableEq

/-- What has happened to the clients. -/
structure Record where
  /-- How many `Client` objects have been made. -/
  objects : Nat := 0
  /-- The objects that were worked on, with their descriptors, in order. -/
  touched : List (Fd × Nat) := []
  /-- The clients destroyed, as they were then. -/
  destroyed : List (Connection × Cause) := []
  /-- How often `close_client` found the counter at zero. -/
  suppressed : Nat := 0

/-- Work on a client. -/
def Record.touch (record : Record) (fd : Fd) (conn : Connection) : Record :=
  { record with touched := record.touched ++ [(fd, conn.object)] }

/-- Destroy a client. -/
def Record.destroy (record : Record) (conn : Connection) (cause : Cause) (counted : Bool) :
    Record :=
  { record with
    destroyed := record.destroyed ++ [(conn, cause)]
    suppressed := if counted then record.suppressed else record.suppressed + 1 }

/-! ## System calls -/

/-- What the successive `accept4` calls of one `on_new_connection` return, and whether
the `epoll_ctl` for each new descriptor succeeds. -/
inductive Accepting where
  | connection (fd : Fd) (added : Bool) (next : Accepting)
  /-- `EAGAIN` and any other failure alike. -/
  | failed

/-- What the successive reads of the signal descriptor return. -/
inductive SignalReads where
  /-- One signal; `terminates` if it is `SIGINT` or `SIGTERM`. -/
  | signal (terminates : Bool) (next : SignalReads)
  /-- Nothing more, or a failure. -/
  | done

/-- What the system calls of one callback return. -/
structure Outcomes where
  /-- The clock readings, by the number of the request on its connection. -/
  clock : Nat → UInt64 := fun _ => 0
  accepting : Accepting := .failed
  signals : SignalReads := .done
  incoming : Incoming := .wouldBlock
  /-- The `epoll_ctl` after reading. -/
  readModified : Bool := true
  outgoing : Outgoing := .wouldBlock
  /-- The `epoll_ctl` after writing. -/
  writeModified : Bool := true

/-- An event that `epoll_wait` reports, with what the calls of its callback return. -/
structure Ready where
  fd : Fd
  events : Events
  outcomes : Outcomes := {}

/-! ## The server -/

/-- `Aof::close` -/
def Aof.close (aof : Aof) : Aof := { aof with fd := -1 }

/-- `Server` -/
structure Server where
  store : Store := .empty
  aof : Aof := {}
  loop : EventLoop Callback := {}
  listenFd : Option Fd := none
  signalFd : Option Fd := none
  clients : FlatMap Fd Connection := .empty
  /-- `ctx_.connected_clients` -/
  connectedClients : Nat := 0
  record : Record := {}

namespace Server

/-- `Server::close_client` -/
def closeClient (cause : Cause) (fd : Fd) (s : Server) : Server :=
  match s.clients.find? fd with
  | none => s
  | some conn =>
    { s with
      loop := s.loop.remove fd
      clients := s.clients.erase fd
      -- the guard against a counter that is at zero already
      connectedClients :=
        if s.connectedClients > 0 then s.connectedClients - 1 else s.connectedClients
      record := (s.record.touch fd conn).destroy conn cause (s.connectedClients > 0) }

/-- Close the listening descriptor. -/
def closeListener (s : Server) : Server :=
  match s.listenFd with
  | none => s
  | some fd => { s with loop := s.loop.remove fd, listenFd := none }

/-- Close the signal descriptor. -/
def closeSignals (s : Server) : Server :=
  match s.signalFd with
  | none => s
  | some fd => { s with loop := s.loop.remove fd, signalFd := none }

/-- `Server::shutdown` -/
def shutdown (s : Server) : Server :=
  let s := { s with aof := s.aof.close }
  -- the descriptors are collected before the first client is closed
  let s := s.clients.keys.foldl (fun s fd => s.closeClient .shutdown fd) s
  let s := s.closeListener.closeSignals
  { s with loop := s.loop.stop }

/-- The body of `on_new_connection`, for an accepted descriptor. -/
def acceptClient (fd : Fd) (added : Bool) (s : Server) : Server :=
  -- the client is in the map before `epoll_ctl` is tried
  let s := { s with
    clients := s.clients.insert fd { object := s.record.objects }
    connectedClients := s.connectedClients + 1
    record := { s.record with objects := s.record.objects + 1 } }
  let s := { s with loop := s.loop.add fd { input := true } (.client fd) added }
  if added then s else s.closeClient .control fd

/-- `Server::on_new_connection` -/
def onNewConnection : Accepting → Server → Server
  | .failed, s => s
  | .connection fd added next, s =>
    if s.listenFd.isSome then onNewConnection next (s.acceptClient fd added) else s

/-- `Server::on_client_readable` -/
def onClientReadable (fd : Fd) (clock : Nat → UInt64) (incoming : Incoming) (modified : Bool)
    (s : Server) : Server :=
  match s.clients.find? fd with
  | none => s
  | some conn =>
    let (stays, session) := (conn.session s.store).onReadable clock s.aof incoming
    let ending := (conn.session s.store).readEnd clock s.aof incoming
    let s := { s with
      store := session.store
      clients := s.clients.insert fd (conn.resume session)
      record := s.record.touch fd conn }
    if stays then
      if session.client.state = .writing then
        -- a reply is pending, by this call or an earlier one
        let events : Events := { input := true, output := true, peerHangup := true }
        let s := { s with loop := s.loop.modify fd events (.client fd) modified }
        if modified then s else s.closeClient .control fd
      else s
    else s.closeClient (.read ending) fd

/-- `Server::on_client_writable` -/
def onClientWritable (fd : Fd) (outgoing : Outgoing) (modified : Bool) (s : Server) : Server :=
  match s.clients.find? fd with
  | none => s
  | some conn =>
    let flushed := conn.client.onWritable outgoing
    let s := { s with
      clients := s.clients.insert fd (conn.flushed flushed)
      record := s.record.touch fd conn }
    if flushed.stays then
      if flushed.client.state = .reading then
        -- nothing is pending any more: input only
        let events : Events := { input := true, peerHangup := true }
        let s := { s with loop := s.loop.modify fd events (.client fd) modified }
        if modified then s else s.closeClient .control fd
      else s
    else s.closeClient .write fd

/-- `Server::on_signal` -/
def onSignal : SignalReads → Server → Server
  | .done, s => s
  | .signal terminates next, s =>
    if s.signalFd.isSome then
      if terminates then s.shutdown else onSignal next s
    else s

/-- The callback of a client. -/
def onClientEvents (fd : Fd) (events : Events) (o : Outcomes) (s : Server) : Server :=
  if events.error || events.hangup || events.peerHangup then s.closeClient .hangup fd
  else
    let s :=
      if events.input then s.onClientReadable fd o.clock o.incoming o.readModified else s
    -- reading may have closed the client
    if (s.clients.find? fd).isSome && events.output then
      s.onClientWritable fd o.outgoing o.writeModified
    else s

/-- Invoke a callback. -/
def invoke (callback : Callback) (events : Events) (o : Outcomes) (s : Server) : Server :=
  match callback with
  | .listener =>
    if events.error || events.hangup then s.shutdown else s.onNewConnection o.accepting
  | .signals =>
    if events.error || events.hangup then s.shutdown else s.onSignal o.signals
  | .client fd => s.onClientEvents fd events o

/-- The body of `EventLoop::run_once`, for one event. -/
def deliver (r : Ready) (s : Server) : Server :=
  match s.loop.callbacks.find? r.fd with
  -- removed by a callback earlier in the batch
  | none => s
  | some registration => s.invoke registration.callback r.events r.outcomes

/-- `EventLoop::run_once`, for the events of one `epoll_wait`. -/
def runOnce (batch : List Ready) (s : Server) : Server := runBatch deliver batch s

/-! ## What the callbacks of a client do -/

/-- The server after work on a client that leaves it as `conn'`. -/
def update (s : Server) (fd : Fd) (conn conn' : Connection) (store : Store) : Server :=
  { s with
    store
    clients := s.clients.insert fd conn'
    record := s.record.touch fd conn }

/-- The server after the interest set of a client is changed; if that fails, the client
is closed. -/
def setInterest (s : Server) (fd : Fd) (events : Events) (modified : Bool) : Server :=
  let s := { s with loop := s.loop.modify fd events (.client fd) modified }
  if modified then s else s.closeClient .control fd

/-- The first half of a client's callback. -/
def readIfReady (fd : Fd) (events : Events) (o : Outcomes) (s : Server) : Server :=
  if events.input then s.onClientReadable fd o.clock o.incoming o.readModified else s

/-- The second half, for a client that is still there. -/
def writeIfReady (fd : Fd) (events : Events) (o : Outcomes) (s : Server) : Server :=
  if (s.clients.find? fd).isSome && events.output then
    s.onClientWritable fd o.outgoing o.writeModified
  else s

/-- The callback of a client: a hangup closes it, otherwise it is read for and written to. -/
theorem onClientEvents_eq (fd : Fd) (events : Events) (o : Outcomes) (s : Server) :
    s.onClientEvents fd events o =
      if events.error || events.hangup || events.peerHangup then s.closeClient .hangup fd
      else (s.readIfReady fd events o).writeIfReady fd events o := rfl

section callbacks

variable {s : Server} {fd : Fd} {conn : Connection}

/-- There is nothing to close under a descriptor without a client. -/
theorem closeClient_of_none (h : s.clients.find? fd = none) (cause : Cause) :
    s.closeClient cause fd = s := by
  rw [closeClient, h]

/-- Nobody is read for under a descriptor without a client. -/
theorem onClientReadable_of_none (h : s.clients.find? fd = none) (clock : Nat → UInt64)
    (incoming : Incoming) (modified : Bool) :
    s.onClientReadable fd clock incoming modified = s := by
  rw [onClientReadable, h]

/-- Nobody is written to under a descriptor without a client. -/
theorem onClientWritable_of_none (h : s.clients.find? fd = none) (outgoing : Outgoing)
    (modified : Bool) : s.onClientWritable fd outgoing modified = s := by
  rw [onClientWritable, h]

/-- Reading for a client: the client is updated; then its interest set is, if it has
replies to write, or it is closed, if `on_readable` says so. -/
theorem onClientReadable_of_some (h : s.clients.find? fd = some conn) {clock : Nat → UInt64}
    {incoming : Incoming} {result : Bool × Session}
    (hresult : (conn.session s.store).onReadable clock s.aof incoming = result)
    (modified : Bool) :
    s.onClientReadable fd clock incoming modified =
      if result.1 then
        if result.2.client.state = .writing then
          (s.update fd conn (conn.resume result.2) result.2.store).setInterest fd
            { input := true, output := true, peerHangup := true } modified
        else s.update fd conn (conn.resume result.2) result.2.store
      else
        (s.update fd conn (conn.resume result.2) result.2.store).closeClient
          (.read ((conn.session s.store).readEnd clock s.aof incoming)) fd := by
  rw [onClientReadable, h, ← hresult]
  rfl

/-- Writing for a client: the client is updated; then its interest set is, if it has
nothing left to write, or it is closed, if `on_writable` says so. -/
theorem onClientWritable_of_some (h : s.clients.find? fd = some conn) {outgoing : Outgoing}
    {flushed : Flushed} (hflushed : conn.client.onWritable outgoing = flushed)
    (modified : Bool) :
    s.onClientWritable fd outgoing modified =
      if flushed.stays then
        if flushed.client.state = .reading then
          (s.update fd conn (conn.flushed flushed) s.store).setInterest fd
            { input := true, peerHangup := true } modified
        else s.update fd conn (conn.flushed flushed) s.store
      else (s.update fd conn (conn.flushed flushed) s.store).closeClient .write fd := by
  rw [onClientWritable, h, ← hflushed]
  rfl

/-- An event without a callback is passed over. -/
theorem deliver_of_none {r : Ready} (h : s.loop.callbacks.find? r.fd = none) :
    s.deliver r = s := by
  rw [deliver, h]

/-- An event goes to the callback of its descriptor. -/
theorem deliver_of_some {r : Ready} {registration : Registration Callback}
    (h : s.loop.callbacks.find? r.fd = some registration) :
    s.deliver r = s.invoke registration.callback r.events r.outcomes := by
  rw [deliver, h]

end callbacks

/-! ## Starting -/

/-- What the system calls of `start` return. -/
structure StartOutcomes where
  /-- `sigprocmask` -/
  masked : Bool := true
  /-- `signalfd` -/
  signals : Option Fd
  signalsAdded : Bool := true
  /-- `socket` -/
  socket : Option Fd
  /-- `setsockopt` -/
  reusable : Bool := true
  /-- `inet_pton` -/
  validAddress : Bool := true
  /-- `bind` -/
  bound : Bool := true
  /-- `listen` -/
  listening : Bool := true
  listenerAdded : Bool := true

/-- Which step of `start` fails. -/
inductive StartError where
  | signals
  | socket
  | reuseAddress
  | bindAddress
  | bind
  | listen
  | add
deriving DecidableEq

/-- `Server::setup_signals` -/
def setupSignals (o : StartOutcomes) (s : Server) : Server :=
  if o.masked then
    match o.signals with
    | none => s
    | some fd =>
      let s := { s with
        loop := s.loop.add fd { input := true } .signals o.signalsAdded
        signalFd := some fd }
      if o.signalsAdded then s else { s with signalFd := none }
  else s

/-- `Server::start`, up to the point where the loop runs. -/
def start (o : StartOutcomes) (s : Server) : Except StartError Server :=
  let s := s.setupSignals o
  if s.signalFd.isNone then .error .signals
  else
    match o.socket with
    | none => .error .socket
    | some fd =>
      if !o.reusable then .error .reuseAddress
      else if !o.validAddress then .error .bindAddress
      else if !o.bound then .error .bind
      else if !o.listening then .error .listen
      else if !o.listenerAdded then .error .add
      else
        .ok { s with
          listenFd := some fd
          loop := { s.loop.add fd { input := true } .listener true with running := true } }

/-- A server with its two descriptors registered, and running. -/
def started (store : Store) (aof : Aof) (signalFd listenFd : Fd) : Server where
  store
  aof
  signalFd := some signalFd
  listenFd := some listenFd
  loop := { (({} : EventLoop Callback).add signalFd { input := true } .signals true).add
    listenFd { input := true } .listener true with running := true }

/-- Setting up the signal descriptor leaves none, or one that is registered. -/
theorem setupSignals_cases (o : StartOutcomes) {s : Server} (hnone : s.signalFd = none) :
    (s.setupSignals o).signalFd = none ∨
    ∃ fd, o.signals = some fd ∧ s.setupSignals o =
      { s with loop := s.loop.add fd { input := true } .signals true, signalFd := some fd } := by
  rw [setupSignals]
  by_cases hmasked : o.masked = true
  · rw [if_pos hmasked]
    cases o.signals with
    | none => exact .inl hnone
    | some fd =>
      cases o.signalsAdded with
      | true => exact .inr ⟨fd, rfl, rfl⟩
      | false => exact .inl rfl
  · rw [if_neg hmasked]
    exact .inl hnone

/-- A new server that starts has registered its two descriptors. -/
theorem start_ok {store : Store} {aof : Aof} {o : StartOutcomes} {s : Server}
    (h : start o { store, aof } = .ok s) :
    ∃ signalFd listenFd, o.signals = some signalFd ∧ o.socket = some listenFd ∧
      s = started store aof signalFd listenFd := by
  rw [start] at h
  rcases setupSignals_cases o (s := { store, aof }) rfl with
    hnone | ⟨signalFd, hsignals, hserver⟩
  · simp only [hnone, Option.isNone_none, if_true] at h
    cases h
  · rw [hserver] at h
    cases hsocket : o.socket with
    | none =>
      rw [hsocket] at h
      cases h
    | some listenFd =>
      rw [hsocket] at h
      simp only [Option.isNone_some, Bool.false_eq_true, if_false] at h
      split_ifs at h
      cases h
      exact ⟨signalFd, listenFd, hsignals, rfl, rfl⟩

/-! ## Runs -/

/-- The server holds the descriptor. -/
def IsOpen (s : Server) (fd : Fd) : Prop :=
  (s.clients.find? fd).isSome ∨ s.listenFd = some fd ∨ s.signalFd = some fd

instance decidableIsOpen (s : Server) (fd : Fd) : Decidable (s.IsOpen fd) :=
  inferInstanceAs (Decidable (_ ∨ _ ∨ _))

/-- `accept4` returns descriptors that are not open. -/
def FreshFds : Accepting → Server → Prop
  | .failed, _ => True
  | .connection fd added next, s => ¬ s.IsOpen fd ∧ FreshFds next (s.acceptClient fd added)

/-- What the system calls return is possible: new descriptors are fresh. -/
def Admits (s : Server) (r : Ready) : Prop := FreshFds r.outcomes.accepting s

/-- The servers that a start and then any callbacks lead to. The events may be any, also
ones that `epoll_wait` would not report. -/
inductive Reachable : Server → Prop
  | start {store : Store} {aof : Aof} {o : StartOutcomes} {s : Server}
      (hfresh : o.socket ≠ o.signals) (h : start o { store, aof } = .ok s) : Reachable s
  | deliver {s : Server} (r : Ready) (hfresh : s.Admits r) (h : Reachable s) :
    Reachable (s.deliver r)
  | shutdown {s : Server} (h : Reachable s) : Reachable s.shutdown

/-- A start with everything in order. -/
theorem reachable_started {signalFd listenFd : Fd} (hne : listenFd ≠ signalFd) (store : Store)
    (aof : Aof) : Reachable (started store aof signalFd listenFd) :=
  .start (o := { signals := some signalFd, socket := some listenFd })
    (fun heq => hne (Option.some.inj heq)) rfl

end Server

end Redix
