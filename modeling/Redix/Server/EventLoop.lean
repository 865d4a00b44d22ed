import Redix.Base.FlatMap
import Mathlib.Logic.Basic

/-!
# The event loop (event_loop.cpp)

A map from descriptors to callbacks, kept next to the interest list of an epoll
instance, and the loop that hands the events of one `epoll_wait` to the callbacks
one after another.

Conventions:

- `add` and `modify` enter the interest set and the callback under a descriptor
  together, or fail and enter neither, and `remove` drops both; so one map of
  `Registration`s stands for both;
- whether an `epoll_ctl` call succeeds is a parameter;
- the type of callbacks is a parameter: the loop only looks them up.
-/

namespace Redix

/-- A descriptor number. -/
abbrev Fd := Nat

/-- The event bits that the server uses, as a set. -/
structure Events where
  /-- `EPOLLIN` -/
  input : Bool := false
  /-- `EPOLLOUT` -/
  output : Bool := false
  /-- `EPOLLRDHUP` -/
  peerHangup : Bool := false
  /-- `EPOLLHUP` -/
  hangup : Bool := false
  /-- `EPOLLERR` -/
  error : Bool := false
deriving DecidableEq

/-- What is registered under a descriptor. -/
structure Registration (γ : Type) where
  /-- The interest set. -/
  events : Events
  callback : γ

/-- `EventLoop` -/
structure EventLoop (γ : Type) where
  callbacks : FlatMap Fd (Registration γ) := .empty
  running : Bool := false

namespace EventLoop

variable {γ : Type} {loop : EventLoop γ}

/-- `EventLoop::add` and `EventLoop::modify`, which differ in the system call only:
whether it succeeds is `ok`. -/
def register (loop : EventLoop γ) (fd : Fd) (events : Events) (callback : γ) (ok : Bool) :
    EventLoop γ :=
  if ok then { loop with callbacks := loop.callbacks.insert fd ⟨events, callback⟩ } else loop

/-- `EventLoop::add` -/
def add (loop : EventLoop γ) (fd : Fd) (events : Events) (callback : γ) (added : Bool) :
    EventLoop γ :=
  loop.register fd events callback added

/-- `EventLoop::modify` -/
def modify (loop : EventLoop γ) (fd : Fd) (events : Events) (callback : γ) (modified : Bool) :
    EventLoop γ :=
  loop.register fd events callback modified

/-- `EventLoop::remove` -/
def remove (loop : EventLoop γ) (fd : Fd) : EventLoop γ :=
  { loop with callbacks := loop.callbacks.erase fd }

/-- `EventLoop::stop` -/
def stop (loop : EventLoop γ) : EventLoop γ := { loop with running := false }

/-- A registration, descriptor by descriptor. -/
theorem find?_add (fd fd' : Fd) (events : Events) (callback : γ) :
    (loop.add fd events callback true).callbacks.find? fd' =
      if fd = fd' then some ⟨events, callback⟩ else loop.callbacks.find? fd' :=
  FlatMap.find?_insert _ _ _ _

/-- A change of interest, descriptor by descriptor. -/
theorem find?_modify (fd fd' : Fd) (events : Events) (callback : γ) :
    (loop.modify fd events callback true).callbacks.find? fd' =
      if fd = fd' then some ⟨events, callback⟩ else loop.callbacks.find? fd' :=
  FlatMap.find?_insert _ _ _ _

/-- The end of a registration, descriptor by descriptor. -/
theorem find?_remove (fd fd' : Fd) :
    (loop.remove fd).callbacks.find? fd' =
      if fd = fd' then none else loop.callbacks.find? fd' :=
  FlatMap.find?_erase _ _ _

end EventLoop

/-! ## Batches -/

section batches

variable {ε σ : Type} (step : ε → σ → σ)

/-- Handle the events of a batch one after another. -/
def runBatch (batch : List ε) (s : σ) : σ := batch.foldl (fun s e => step e s) s

variable {step}

/-- A batch can be cut anywhere. -/
theorem runBatch_append (before after : List ε) (s : σ) :
    runBatch step (before ++ after) s = runBatch step after (runBatch step before s) :=
  List.foldl_append

/-- What holds of a whole batch still to come, and passes from each event to the ones
after it, holds of every rest of the batch when its turn comes. -/
theorem runBatch_induction {I : List ε → σ → Prop}
    (hstep : ∀ e rest s, I (e :: rest) s → I rest (step e s)) (before : List ε) :
    ∀ {rest : List ε} {s : σ}, I (before ++ rest) s → I rest (runBatch step before s) := by
  induction before with
  | nil => exact fun h => h
  | cons e before ih => exact fun h => ih (hstep _ _ _ h)

end batches

end Redix
