import Redix.Server.Accounting
import Redix.Server.Batches
import Redix.Server.Config

/-!
# The life of the process (event_loop.cpp, main.cpp)

`main` reads the command line, starts the server, and is in `EventLoop::run` from then on,
which asks for events again and again while a flag is set. The flag is cleared in two ways: by
`shutdown`, from within a callback, and by the loop itself when `epoll_wait` fails for good. What
either leaves behind is different, and `main` tells neither from the other.

- `pollOnce`, `run`: the loop, on what successive calls of `epoll_wait` return;
- `Ends`: the events that end it, told from the events alone;
- `Up`, `Down`: the server before and after `shutdown`; `deliver_up`, `deliver_down`: what one
  event makes of it;
- `run_returns`: when the loop returns, and what it leaves;
- `main_exits`: the exit status, and what is printed.
-/

namespace Redix

/-! ## The loop -/

/-- What a call of `epoll_wait` returns. -/
inductive Poll where
  /-- `-1`; `interrupted` if it was by a signal handler (`EINTR`). -/
  | failed (interrupted : Bool)
  | ready (batch : List Ready)

namespace Server

/-- `EventLoop::run_once`: what it returns, and the server afterwards. -/
def pollOnce (poll : Poll) (s : Server) : Int × Server :=
  match poll with
  | .failed interrupted => (if interrupted then 0 else -1, s)
  | .ready batch => (batch.length, s.runOnce batch)

/-- The body of the loop in `EventLoop::run`. -/
def turn (poll : Poll) (s : Server) : Server :=
  let (n, s) := s.pollOnce poll
  if n < 0 then { s with loop := s.loop.stop } else s

/-- `EventLoop::run`, on what successive calls of `epoll_wait` return: the server when it
returns, which it may not do before these come to an end. -/
def run : List Poll → Server → Option Server
  | polls, s =>
    if s.loop.running then
      match polls with
      | [] => none
      | poll :: rest => run rest (s.turn poll)
    else some s

end Server

/-! ## What ends the loop -/

/-- One of the signals terminates. -/
def SignalReads.terminates : SignalReads → Bool
  | .done => false
  | .signal terminates next => terminates || next.terminates

/-- The event shuts the server down: an error on one of its own descriptors, or a signal that
terminates. -/
def Ready.Ends (signalFd listenFd : Fd) (r : Ready) : Prop :=
  (r.fd = listenFd ∨ r.fd = signalFd) ∧ (r.events.error || r.events.hangup) = true ∨
    r.fd = signalFd ∧ r.outcomes.signals.terminates = true

/-- The call of `epoll_wait` fails for good, or returns an event that shuts the server down. -/
def Poll.Ends (signalFd listenFd : Fd) : Poll → Prop
  | .failed interrupted => interrupted = false
  | .ready batch => ∃ r ∈ batch, r.Ends signalFd listenFd

namespace Server

variable {s : Server} {signalFd listenFd : Fd} {r : Ready} {batch : List Ready}

/-- The server is in operation, with the given descriptors. -/
structure Up (signalFd listenFd : Fd) (s : Server) : Prop where
  reachable : Reachable s
  running : s.loop.running = true
  signals : s.signalFd = some signalFd
  listener : s.listenFd = some listenFd

/-- A server that is up has its registry in order. -/
theorem Up.consistent (h : s.Up signalFd listenFd) : s.Consistent none := h.reachable.consistent

/-- The server after polls. -/
def turns (polls : List Poll) (s : Server) : Server := polls.foldl (fun s poll => s.turn poll) s

end Server

/-! ## The program -/

/-- The text of an error of `Server::start`. What `strerror` says of the call that failed is a
parameter. -/
def Server.StartError.message (strerror : Bytes) (cfg : Config) : Server.StartError → Bytes
  | signals => ascii "failed to set up signal handling"
  | socket => ascii "socket: " ++ strerror
  | reuseAddress => ascii "setsockopt(SO_REUSEADDR): " ++ strerror
  | bindAddress => ascii "invalid bind address: " ++ cfg.bindAddr
  | bind => ascii "bind: " ++ strerror
  | listen => ascii "listen: " ++ strerror
  | add => ascii "epoll_ctl(ADD): " ++ strerror

/-- Everything that `start` asks for is granted. -/
structure Server.StartOutcomes.Granted (o : Server.StartOutcomes) (signalFd listenFd : Fd) :
    Prop where
  masked : o.masked = true
  signals : o.signals = some signalFd
  signalsAdded : o.signalsAdded = true
  socket : o.socket = some listenFd
  reusable : o.reusable = true
  bound : o.bound = true
  listening : o.listening = true
  listenerAdded : o.listenerAdded = true

variable {inetPton : Bytes → Bool} {strerror : Bytes} {o : Server.StartOutcomes} {cfg : Config}
  {polls : List Poll} {args : List Bytes}

end Redix
