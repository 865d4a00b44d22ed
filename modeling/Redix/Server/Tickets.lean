import Redix.Command.Counters
import Redix.Server.Serial

/-!
# No update is lost

What the serial order of a run is worth, on the command that suffers first when updates of
several connections overwrite each other: `INCR` reads a number and writes the next one. If
clients draw tickets from a key with it, over any number of connections and with any other
commands on other keys between, each ticket is handed out once and none is left out.

- `drawn_step`, `drawn_run`: the tickets of a run of the object are the numbers that follow
  the one at the key;
- `tickets_drawn_once`: so those of the server are, whichever connection draws.
-/

namespace Redix

/-- The command that draws a ticket. -/
def draw (key : Bytes) : Command := ⟨ascii "INCR", [key]⟩

/-- Whether a ticket is drawn in an exchange. -/
def Exchange.draws (key : Bytes) (x : Exchange) : Bool := x.command = some (draw key)

/-- A request that draws a ticket, or leaves the key alone. -/
def Orderly (key : Bytes) (request : UInt64 × RespValue) : Prop :=
  ∀ cmd, parseCommand request.2 = .ok cmd →
    cmd = draw key ∨ (key ∉ footprint cmd ∧ cmd.name ≠ ascii "FLUSHDB")

/-- The reply with a ticket. -/
def ticket (n : Nat) : Bytes := CounterOp.shown (some n)

/-- Two tickets are told apart. -/
theorem ticket_inj {n m : Nat} (h : ticket n = ticket m) : n = m := by
  have hprint : Decimal.print (n : Int) = Decimal.print (m : Int) :=
    List.append_cancel_left (List.append_cancel_right h)
  have hvalue (k : Nat) : Decimal.value (Decimal.print k) = k := by
    rw [Decimal.print, if_neg (by omega), Int.natAbs_natCast, Decimal.value_printNat]
  rw [← hvalue n, hprint, hvalue]

/-- So many tickets have been drawn from the key. -/
def Drawn (key : Bytes) (store : Store) (n : Nat) : Prop :=
  ∃ counter : Counter, HoldsCounter (fun _ => True) key store counter ∧ counter.value = n

/-- From a key that is absent no ticket has been drawn. -/
theorem drawn_zero {key : Bytes} {store : Store} (h : store.data.find? key = none) :
    Drawn key store 0 := by
  refine ⟨.absent, ⟨none, fun now _ => ?_, rfl⟩, rfl⟩
  rw [findLive_eq, h]
  rfl

variable {key : Bytes} {store : Store} {n : Nat}

/-- A draw gets the next ticket. -/
theorem drawn_draw (h : Drawn key store n) (hn : n + 1 < 2 ^ 63) (now : UInt64) :
    (dispatch now (draw key) store).1 = ticket (n + 1) ∧
      Drawn key (dispatch now (draw key) store).2 (n + 1) := by
  obtain ⟨counter, hholds, hvalue⟩ := h
  have hdelta : counter.value + CounterOp.incr.delta = ((n + 1 : Nat) : Int) := by
    rw [hvalue]
    rfl
  have hrange : InRange (counter.value + CounterOp.incr.delta) := by
    rw [hdelta, InRange]
    omega
  have hnow : (fun _ : UInt64 => True) now := trivial
  obtain ⟨hreply, hafter⟩ := dispatch_holdsCounter .incr hnow hholds
  rw [CounterOp.apply, Counter.add, dif_pos hrange] at hreply hafter
  exact ⟨hreply.trans (congrArg (fun value => CounterOp.shown (some value)) hdelta), _, hafter,
    hdelta⟩

/-- Other requests leave the count. -/
theorem drawn_other {cmd : Command} (h : Drawn key store n) (hkey : key ∉ footprint cmd)
    (hflush : cmd.name ≠ ascii "FLUSHDB") (now : UInt64) :
    Drawn key (dispatch now cmd store).2 n := by
  obtain ⟨counter, ⟨o, hsteady, hin⟩, hvalue⟩ := h
  refine ⟨counter, ⟨o, fun later hlater => ?_, hin⟩, hvalue⟩
  rw [← hsteady later hlater, findLive_eq, findLive_eq, dispatch_frame now hkey hflush]

/-- **One request**: a draw gets the next ticket, and any other leaves the count. -/
theorem drawn_step {request : UInt64 × RespValue} (h : Drawn key store n)
    (hrequest : Orderly key request) (hn : n + 1 < 2 ^ 63) :
    ((respond request store).1.draws key = true ∧
      (respond request store).1.reply = ticket (n + 1) ∧
      Drawn key (respond request store).2 (n + 1)) ∨
    ((respond request store).1.draws key = false ∧ Drawn key (respond request store).2 n) := by
  rw [respond]
  cases hparse : parseCommand request.2 with
  | error reply => exact .inr ⟨rfl, h⟩
  -- a request draws from the counter or does not name it
  | ok cmd =>
    rcases hrequest cmd hparse with rfl | ⟨hkey, hflush⟩
    · obtain ⟨hreply, hafter⟩ := drawn_draw h hn request.1
      exact .inl ⟨decide_eq_true rfl, hreply, hafter⟩
    · refine .inr ⟨decide_eq_false fun heq => ?_, drawn_other h hkey hflush request.1⟩
      obtain rfl : cmd = draw key := Option.some.inj heq
      exact hkey List.mem_cons_self

/-- **A run of the object**: the tickets are the numbers that follow, in their order. -/
theorem drawn_run (requests : List (UInt64 × RespValue)) :
    ∀ {store : Store} {n : Nat}, Drawn key store n → (∀ request ∈ requests, Orderly key request) →
      let drawn := (runSteps respond requests store).1.filter (Exchange.draws key)
      n + drawn.length < 2 ^ 63 →
      drawn.map Exchange.reply = (List.range' (n + 1) drawn.length).map ticket := by
  induction requests with
  | nil => exact fun _ _ _ => rfl
  | cons request rest ih =>
    intro store n h horderly drawn hlength
    obtain ⟨hfirst, hrest⟩ := List.forall_mem_cons.mp horderly
    have hdrawn : drawn = ((respond request store).1 ::
        (runSteps respond rest (respond request store).2).1).filter (Exchange.draws key) := rfl
    rw [List.filter_cons] at hdrawn
    by_cases hn : n + 1 < 2 ^ 63
    · rcases drawn_step h hfirst hn with ⟨hdraws, hreply, hafter⟩ | ⟨hdraws, hafter⟩
      · rw [if_pos hdraws] at hdrawn
        rw [hdrawn, List.length_cons] at hlength ⊢
        rw [List.map_cons, hreply, ih hafter hrest (by omega), List.range'_succ, List.map_cons]
      · rw [hdraws, if_neg Bool.false_ne_true] at hdrawn
        rw [hdrawn] at hlength ⊢
        exact ih hafter hrest hlength
    · -- the numbers are used up
      have hnil : drawn = [] := List.length_eq_zero_iff.mp (by omega)
      rw [hnil]
      rfl

namespace Server

/-- **Each ticket is drawn once.** In every run, let the clients draw tickets from a key that
is absent in the beginning, and leave it alone otherwise. Then over all connections the
tickets are `1, 2, 3, ...` in the serial order: no two draws get the same one and none is
left out; and each client has the tickets that were drawn for it. -/
theorem tickets_drawn_once (store : Store) (aof : Aof) (signalFd listenFd : Fd)
    (events : List Ready) (h : AdmitsAll events (started store aof signalFd listenFd))
    {key : Bytes} (habsent : store.data.find? key = none) :
    let s₀ := started store aof signalFd listenFd
    let tickets := (Service.answers respond (serial events s₀) store).filter fun answer =>
      answer.2.draws key
    (∀ request ∈ serial events s₀, Orderly key request.2) → tickets.length < 2 ^ 63 →
    (tickets.map fun answer => answer.2.reply) =
      (List.range' 1 tickets.length).map ticket ∧
    (tickets.map fun answer => answer.2.reply).Nodup ∧
    ∀ conn, (s₀.runOnce events).Has conn →
      conn.log.filter (Exchange.draws key) =
        (tickets.filter fun answer => answer.1 = conn.object).map Prod.snd := by
  intro s₀ tickets horderly hlength
  have htickets : tickets.map Prod.snd =
      (runSteps respond ((serial events s₀).map Prod.snd) store).1.filter (Exchange.draws key) := by
    rw [← Service.map_snd_answers, List.filter_map]
    rfl
  -- the k-th draw answers k, whoever asks
  have hreplies : (tickets.map fun answer => answer.2.reply) =
      (List.range' 1 tickets.length).map ticket := by
    have hrun := drawn_run ((serial events s₀).map Prod.snd) (drawn_zero habsent)
      (fun request hrequest => by
        obtain ⟨request', hrequest', rfl⟩ := List.mem_map.mp hrequest
        exact horderly request' hrequest')
    simp only [← htickets, List.length_map, List.map_map, Nat.zero_add] at hrun
    exact hrun hlength
  refine ⟨hreplies, ?_, fun conn hconn => ?_⟩
  · rw [hreplies]
    exact List.Nodup.map (fun _ _ heq => ticket_inj heq) List.nodup_range'
  · obtain ⟨-, htold⟩ := runOnce_told store aof signalFd listenFd events h
    rw [(htold conn hconn).log]
    exact Service.filter_log_run (Exchange.draws key) conn.object (serial events s₀) store

/-- A client draws twice, in one chunk, with another command between. -/
theorem tickets_drawn_once_pipelined :
    let key := ascii "t"
    let words : List (List Bytes) :=
      [[ascii "INCR", key], [ascii "GET", ascii "k"], [ascii "incr", key]]
    let chunk : Chunk := ⟨(words.map fun word => respEncode (.array (word.map .string))).flatten,
      by decide, by decide⟩
    let events : List Ready := [
      { fd := 4, events := { input := true },
        outcomes := { accepting := .connection 7 true .failed } },
      { fd := 7, events := { input := true }, outcomes := { incoming := .data chunk .eof } }]
    let s₀ := started .empty {} 3 4
    (((Service.answers respond (serial events s₀) .empty).filter fun answer =>
        answer.2.draws key).map fun answer => answer.2.reply) =
      [ascii ":1\r\n", ascii ":2\r\n"] := by
  intro key words chunk events s₀
  have hwords : ∀ v ∈ words.map fun word => RespValue.array (word.map .string),
      NoCrlfErrors v ∧ SizesBelow (2 ^ 63) v := by
    intro v hv
    obtain ⟨word, hword, rfl⟩ := List.mem_map.mp hv
    have hfits : ∀ word ∈ words, Fits word := by decide
    exact strings_encodable (hfits word hword)
  have hserial : serial events s₀ = [
      (0, 0, .array [.string (ascii "INCR"), .string key]),
      (0, 0, .array [.string (ascii "GET"), .string (ascii "k")]),
      (0, 0, .array [.string (ascii "incr"), .string key])] := by
    have hreceived : (Connection.session { object := 0 } .empty).received (.data chunk .eof) =
        ⟨_, [], false⟩ := received_encoded rfl hwords chunk (by rw [List.map_map]; rfl) rfl
    show ((timed _ 0 ((Connection.session { object := 0 } .empty).received
      (.data chunk .eof)).values).map _) ++ [] = _
    rw [hreceived]
    rfl
  have horderly : ∀ request ∈ serial events s₀, Orderly key request.2 := by
    rw [hserial]
    intro request hrequest cmd hparse
    rcases hrequest with _ | ⟨_, _ | ⟨_, _ | ⟨_, ⟨⟩⟩⟩⟩
    · exact .inl (Except.ok.inj hparse).symm
    · obtain rfl := Except.ok.inj hparse
      exact .inr ⟨by decide, by decide⟩
    · exact .inl (Except.ok.inj hparse).symm
  have hcount : ((Service.answers respond (serial events s₀) .empty).filter fun answer =>
      answer.2.draws key).length = 2 := by
    rw [hserial]
    rfl
  obtain ⟨hreplies, -⟩ := tickets_drawn_once .empty {} 3 4 events ⟨⟨by decide, trivial⟩, trivial,
    trivial⟩ rfl horderly (by rw [hcount]; decide)
  rw [hreplies, hcount]
  rfl

end Server

end Redix
