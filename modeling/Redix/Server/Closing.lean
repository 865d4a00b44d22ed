import Redix.Command.Replies
import Redix.Server.Registry

/-!
# What a close drops

`on_readable` executes commands and detects the end of the stream in one loop, and
the server destroys a client as soon as it returns false. Replies that have not been
sent by then are dropped: `ClientState` has a `Closing`, but nothing enters it.

- `Connection.Intact`: what `send` took and what is unsent are the replies logged.
  It holds of every client in every run (`Reachable.intact`);
- `Connection.Delivered`: the replies to all commands dispatched have been sent;
- `reply_dropped_at_eof`: a client may be destroyed that this does not hold of;
- `Settled`: a call that closes the connection starts with no reply to a command
  unsent, and completes no command. In a run of such calls nothing is dropped
  (`no_reply_dropped`), and only then (`delivered_iff_settled`).
-/

namespace Redix

open Framing

/-! ## Connections -/

namespace Connection

variable {conn : Connection}

/-- What has been sent and what is unsent are the replies, and the client is tidy. -/
structure Intact (conn : Connection) : Prop where
  stream : conn.sent ++ conn.client.unsent = (conn.log.map Exchange.reply).flatten
  tidy : conn.client.Tidy

/-- The reply to every command dispatched has been handed to `send` in full. -/
def Delivered (conn : Connection) : Prop :=
  ∀ before x after, conn.log = before ++ x :: after → x.command.isSome →
    ((before ++ [x]).map Exchange.reply).flatten <+: conn.sent

/-- A client that is reading has been sent everything. -/
theorem Intact.delivered (h : conn.Intact) (hreading : conn.client.state = .reading) :
    conn.Delivered := by
  intro before x after hsplit _
  have hlog : conn.log = (before ++ [x]) ++ after := by rw [hsplit, List.append_cons]
  have hsent : conn.sent = (conn.log.map Exchange.reply).flatten := by
    rw [← h.stream, h.tidy.reading_iff.mp hreading, List.append_nil]
  rw [hsent, hlog, @List.map_append _ _ _ (before ++ [x]), List.flatten_append]
  exact List.prefix_append _ _

/-- Of a new client nothing is asked and nothing is sent. -/
theorem intact_new (object : Nat) : ({ object } : Connection).Intact :=
  ⟨rfl, Client.tidy_new⟩

/-! ### Reading -/

/-- A reply that is enqueued is logged, and is behind what is still to be sent. -/
theorem intact_answer {s : Session} (h : (conn.resume s).Intact) (value : RespValue)
    (command : Option Command) {reply : Bytes} (hreply : reply ≠ []) :
    (conn.resume (s.answer value command reply)).Intact := by
  constructor
  · show conn.sent ++ (s.client.enqueueResponse reply).unsent =
      ((s.log ++ [(⟨value, command, reply⟩ : Exchange)]).map Exchange.reply).flatten
    have hstream : conn.sent ++ s.client.unsent = (s.log.map Exchange.reply).flatten := h.stream
    have htidy : s.client.Tidy := h.tidy
    rw [Client.unsent_enqueueResponse htidy, ← List.append_assoc, hstream, List.map_append,
      List.flatten_append, List.map_singleton, List.flatten_singleton]
  · exact Client.tidy_enqueueResponse h.tidy hreply

/-- A message that is served leaves the client intact, whatever its reply is. -/
theorem intact_serve {clock : Nat → UInt64} {aof : Aof} {s : Session}
    (h : (conn.resume s).Intact) (value : RespValue) :
    (conn.resume (s.serve clock aof value)).Intact := by
  cases hparse : parseCommand value with
  | error reply =>
    rw [Session.serve_error hparse]
    exact intact_answer h value none (parseCommand_error_ne_nil hparse)
  | ok cmd =>
    rw [Session.serve_ok hparse]
    exact intact_answer (s := { s with store := _ }) h value (some cmd) (dispatch_ne_nil _ _ _)

/-- Any messages served one after another leave the client intact. -/
theorem intact_foldl {clock : Nat → UInt64} {aof : Aof} (values : List RespValue) :
    ∀ {s : Session}, (conn.resume s).Intact →
      (conn.resume (values.foldl (Session.serve clock aof) s)).Intact := by
  induction values with
  | nil => exact fun h => h
  | cons value rest ih => exact fun h => ih (intact_serve h value)

/-- Reading leaves a client intact, however it ends. -/
theorem intact_onReadable (h : conn.Intact) (store : Store) (clock : Nat → UInt64) (aof : Aof)
    (incoming : Incoming) :
    (conn.resume ((conn.session store).onReadable clock aof incoming).2).Intact := by
  have hfold : (conn.resume (((conn.session store).received incoming).values.foldl
      (Session.serve clock aof) (conn.session store))).Intact := intact_foldl _ h
  rw [Session.onReadable_snd]
  -- the parser plays no role
  exact ⟨hfold.stream, hfold.tidy.offset_le, hfold.tidy.reading_iff, hfold.tidy.not_closing⟩

/-! ### Writing -/

/-- Sending moves bytes from what is unsent to what is sent. -/
theorem intact_onWritable (h : conn.Intact) (out : Outgoing) :
    (conn.flushed (conn.client.onWritable out)).Intact := by
  constructor
  · show (conn.sent ++ _) ++ (conn.client.onWritable out).client.unsent = _
    rw [List.append_assoc, Client.unsent_onWritable, h.stream]
    rfl
  · exact Client.tidy_onWritable h.tidy out

/-! ### More requests -/

/-- No request is answered with nothing. -/
theorem exchanges_reply_ne_nil (clock : Nat → UInt64) (values : List RespValue) :
    ∀ {k : Nat} {store : Store}, ∀ x ∈ (exchanges clock k store values).1, x.reply ≠ [] := by
  induction values with
  | nil => exact fun x hx => absurd hx List.not_mem_nil
  | cons value rest ih =>
    intro k store x hx
    rw [exchanges] at hx
    rcases List.mem_cons.mp hx with rfl | hx
    · cases hparse : parseCommand value with
      | error reply => exact parseCommand_error_ne_nil hparse
      | ok cmd => exact dispatch_ne_nil _ _ _
    · exact ih x hx

/-- The log grows by the exchanges of the call, and nothing is sent. -/
theorem log_onReadable (conn : Connection) (store : Store) (clock : Nat → UInt64) (aof : Aof)
    (incoming : Incoming) :
    (conn.resume ((conn.session store).onReadable clock aof incoming).2).log =
      conn.log ++ (exchanges clock conn.log.length store
        ((conn.session store).received incoming).values).1 := by
  have hlog := @Session.foldl_serve_exchanges clock aof
    ((conn.session store).received incoming).values (conn.session store)
  rw [Session.onReadable_snd]
  exact hlog.1

/-- When the log grows and nothing is sent, everything stays delivered exactly if it was
and the new exchanges are about no command. -/
theorem delivered_iff (h : conn.Intact) {conn' : Connection} {later : List Exchange}
    (hlog : conn'.log = conn.log ++ later) (hsent : conn'.sent = conn.sent)
    (hreplies : ∀ x ∈ later, x.reply ≠ []) :
    conn'.Delivered ↔ conn.Delivered ∧ ∀ x ∈ later, x.command = none := by
  constructor
  · intro hdelivered
    refine ⟨fun before x after hsplit hcommand => ?_, fun x hx => ?_⟩
    · rw [← hsent]
      refine hdelivered before x (after ++ later) ?_ hcommand
      rw [hlog, hsplit, List.append_assoc, List.cons_append]
    · by_contra hcommand
      obtain ⟨before, after, rfl⟩ := List.append_of_mem hx
      have hprefix := hdelivered (conn.log ++ before) x after
        (by rw [hlog, List.append_assoc]) (Option.isSome_iff_ne_none.mpr hcommand)
      -- no more can have been sent than was logged before
      have hle := hprefix.length_le
      have hlen := congrArg List.length h.stream
      have hpos := List.length_pos_iff.mpr (hreplies x hx)
      simp only [hsent, List.map_append, List.map_cons, List.map_nil, List.flatten_append,
        List.flatten_singleton, List.length_append] at hle hlen
      omega
  · rintro ⟨hdelivered, hnone⟩ before x after hsplit hcommand
    have hold : x ∉ later := fun hx => by
      rw [hnone x hx] at hcommand
      cases hcommand
    rw [hlog] at hsplit
    rw [hsent]
    rcases List.append_eq_append_iff.mp hsplit with ⟨mid, rfl, hmid⟩ | ⟨mid, hmid, htail⟩
    · exact absurd (hmid ▸ List.mem_append_right mid List.mem_cons_self) hold
    · cases mid with
      | nil =>
        have hlater : x :: after = later := htail
        exact absurd (hlater ▸ List.mem_cons_self) hold
      | cons y rest =>
        obtain ⟨rfl, -⟩ := List.cons.inj htail
        exact hdelivered before x rest hmid hcommand

/-- **Exactly when a call leaves everything delivered.** -/
theorem delivered_onReadable (h : conn.Intact) (store : Store) (clock : Nat → UInt64)
    (aof : Aof) (incoming : Incoming) :
    (conn.resume ((conn.session store).onReadable clock aof incoming).2).Delivered ↔
      conn.Delivered ∧ ∀ value ∈ ((conn.session store).received incoming).values,
        ∀ cmd, parseCommand value ≠ .ok cmd := by
  rw [delivered_iff h (conn.log_onReadable store clock aof incoming) rfl
    (exchanges_reply_ne_nil clock _)]
  refine and_congr_right fun _ => ?_
  generalize ((conn.session store).received incoming).values = values
  have hcommand := exchanges_command clock conn.log.length store values
  -- a read sends nothing, so none of the new exchanges may be that of a command
  have hexchanges : (∀ x ∈ (exchanges clock conn.log.length store values).1,
      x.command = none) ↔
      ∀ o ∈ values.map fun value => (parseCommand value).toOption, o = none := by
    rw [← hcommand, List.forall_mem_map]
  rw [hexchanges, List.forall_mem_map]
  refine forall₂_congr fun value _ => ?_
  cases parseCommand value with
  | error reply => exact iff_of_true rfl nofun
  | ok cmd => exact iff_of_false nofun fun h => h cmd rfl

end Connection

/-! ## The clients of a server -/

/-- Whether a client's callback calls `on_readable`. -/
def Events.reads (events : Events) : Bool :=
  !(events.error || events.hangup || events.peerHangup) && events.input

/-- Without a failure of the socket: the peer has closed, or a message is malformed. -/
def Cause.Orderly (cause : Cause) : Prop := cause = .read .eof ∨ cause = .read .malformed

namespace Server

/-- Each client satisfies `P`, and each that was destroyed, for its cause, `Q`. -/
structure AllClients (P : Connection → Prop) (Q : Connection → Cause → Prop) (s : Server) :
    Prop where
  live : ∀ fd conn, s.clients.find? fd = some conn → P conn
  gone : ∀ conn cause, (conn, cause) ∈ s.record.destroyed → Q conn cause

/-- The work on a client keeps `P`, and `Q` is about what `on_readable` closes only. -/
structure Kept (P : Connection → Prop) (Q : Connection → Cause → Prop) : Prop where
  new : ∀ object, P { object }
  read : ∀ conn store clock aof incoming, P conn →
    P (conn.resume ((conn.session store).onReadable clock aof incoming).2)
  write : ∀ conn out, P conn → P (conn.flushed (conn.client.onWritable out))
  other : ∀ conn cause, (∀ ending, cause ≠ .read ending) → Q conn cause

section

variable {P : Connection → Prop} {Q : Connection → Cause → Prop} {s : Server} {fd : Fd}

/-- A client that is closed is among those destroyed, with the cause. -/
theorem closeClient_allClients (h : s.AllClients P Q) {cause : Cause}
    (hgone : ∀ conn, s.clients.find? fd = some conn → Q conn cause) :
    (s.closeClient cause fd).AllClients P Q := by
  cases hfind : s.clients.find? fd with
  | none => rwa [closeClient_of_none hfind]
  | some conn =>
    constructor
    · intro fd' conn' hfind'
      rw [find?_closeClient] at hfind'
      split_ifs at hfind'
      exact h.live fd' conn' hfind'
    · intro conn' cause' hmem
      rw [closeClient, hfind] at hmem
      rcases List.mem_append.mp hmem with hmem | hmem
      · exact h.gone conn' cause' hmem
      · obtain ⟨rfl, rfl⟩ := Prod.mk.inj (List.mem_singleton.mp hmem)
        exact hgone conn' hfind

/-- A client of which `P` holds may take the place of the one under its descriptor. -/
theorem insert_allClients (h : s.AllClients P Q) {conn : Connection} (hconn : P conn)
    {store : Store} {counter : Nat} {record : Record}
    (hdestroyed : record.destroyed = s.record.destroyed) :
    ({ s with
      store
      clients := s.clients.insert fd conn
      connectedClients := counter
      record } : Server).AllClients P Q := by
  constructor
  · intro fd' conn' hfind'
    rw [FlatMap.find?_insert] at hfind'
    split_ifs at hfind'
    · cases hfind'
      exact hconn
    · exact h.live fd' conn' hfind'
  · intro conn' cause' hmem
    exact h.gone conn' cause' (hdestroyed ▸ hmem)

/-- A change of interest keeps the client, or closes it if it fails. -/
theorem setInterest_allClients (hkept : Kept P Q) (h : s.AllClients P Q) (events : Events)
    (modified : Bool) : (s.setInterest fd events modified).AllClients P Q := by
  cases modified with
  | true => exact ⟨h.live, h.gone⟩
  | false => exact closeClient_allClients h fun conn _ => hkept.other conn _ nofun

/-- Reading for a client: it stays as `P` has it, or is closed for how reading ended. -/
theorem onClientReadable_allClients (hkept : Kept P Q) (h : s.AllClients P Q)
    {clock : Nat → UInt64} {incoming : Incoming}
    (hclosing : ∀ conn, s.clients.find? fd = some conn →
      let ending := (conn.session s.store).readEnd clock s.aof incoming
      ending ≠ .drained →
      Q (conn.resume ((conn.session s.store).onReadable clock s.aof incoming).2) (.read ending))
    (modified : Bool) : (s.onClientReadable fd clock incoming modified).AllClients P Q := by
  cases hfind : s.clients.find? fd with
  | none => rwa [onClientReadable_of_none hfind]
  | some conn =>
    have hends := @Session.onReadable_fst clock s.aof incoming (conn.session s.store)
    have hread := hkept.read conn s.store clock s.aof incoming (h.live fd conn hfind)
    have hclosing := hclosing conn hfind
    generalize hresult : (conn.session s.store).onReadable clock s.aof incoming = result
      at hends hread hclosing
    rw [onClientReadable_of_some hfind hresult]
    have hupdate : (s.update fd conn (conn.resume result.2) result.2.store).AllClients P Q :=
      insert_allClients h hread rfl
    -- it stays and may ask for output, or it closes at the end that was read
    split_ifs with hstays hwriting
    · exact setInterest_allClients hkept hupdate _ _
    · exact hupdate
    · refine closeClient_allClients hupdate fun conn' hfind' => ?_
      obtain rfl : conn.resume result.2 = conn' := FlatMap.eq_of_find?_insert hfind'
      exact hclosing fun hdrained => hstays (hends.mpr hdrained)

/-- Writing to a client. -/
theorem onClientWritable_allClients (hkept : Kept P Q) (h : s.AllClients P Q)
    (outgoing : Outgoing) (modified : Bool) :
    (s.onClientWritable fd outgoing modified).AllClients P Q := by
  cases hfind : s.clients.find? fd with
  | none => rwa [onClientWritable_of_none hfind]
  | some conn =>
    rw [onClientWritable_of_some hfind rfl]
    have hupdate : (s.update fd conn (conn.flushed (conn.client.onWritable outgoing))
        s.store).AllClients P Q :=
      insert_allClients h (hkept.write conn outgoing (h.live fd conn hfind)) rfl
    split_ifs
    · exact setInterest_allClients hkept hupdate _ _
    · exact hupdate
    · exact closeClient_allClients hupdate fun conn' _ => hkept.other conn' _ nofun

/-- Accepting, by induction on the results of `accept4`. -/
theorem onNewConnection_allClients (hkept : Kept P Q) (accepting : Accepting) :
    ∀ {s : Server}, s.AllClients P Q → (s.onNewConnection accepting).AllClients P Q := by
  induction accepting with
  | failed => exact fun h => h
  | connection fd added next ih =>
    intro s h
    rw [onNewConnection]
    split_ifs
    · refine ih ?_
      have hnew : ({ s with
          clients := s.clients.insert fd { object := s.record.objects }
          connectedClients := s.connectedClients + 1
          record := { s.record with objects := s.record.objects + 1 } } :
          Server).AllClients P Q := insert_allClients h (hkept.new _) rfl
      exact setInterest_allClients hkept hnew _ added
    · exact h

/-- Closing all clients in a list, by induction on it. -/
theorem closeAll_allClients (hkept : Kept P Q) (fds : List Fd) :
    ∀ {s : Server}, s.AllClients P Q →
      (fds.foldl (fun s fd => s.closeClient .shutdown fd) s).AllClients P Q := by
  induction fds with
  | nil => exact fun h => h
  | cons fd rest ih =>
    exact fun h => ih (closeClient_allClients h fun conn _ => hkept.other conn _ nofun)

/-- A shutdown closes every client, for that cause. -/
theorem shutdown_allClients (hkept : Kept P Q) (h : s.AllClients P Q) :
    s.shutdown.AllClients P Q := by
  have hclosed : s.clientsClosed.AllClients P Q :=
    closeAll_allClients hkept _ ⟨h.live, h.gone⟩
  obtain ⟨hclients, -, hrecord, -⟩ := s.clientsClosed.closeServer_fields
  rw [shutdown_eq]
  constructor
  · intro fd conn hfind
    exact hclosed.live fd conn (hclients ▸ hfind)
  · intro conn cause hmem
    exact hclosed.gone conn cause (hrecord ▸ hmem)

/-- Signals end in a shutdown, or do nothing to the clients. -/
theorem onSignal_allClients (hkept : Kept P Q) (h : s.AllClients P Q) (signals : SignalReads) :
    (s.onSignal signals).AllClients P Q := by
  induction signals with
  | done => exact h
  | signal terminates next ih =>
    rw [onSignal]
    split_ifs
    · exact shutdown_allClients hkept h
    · exact ih
    · exact h

/-- The events of a client: it is closed for a hangup, or read for and written to. -/
theorem onClientEvents_allClients (hkept : Kept P Q) (h : s.AllClients P Q) {events : Events}
    {o : Outcomes}
    (hclosing : events.reads = true → ∀ conn, s.clients.find? fd = some conn →
      let ending := (conn.session s.store).readEnd o.clock s.aof o.incoming
      ending ≠ .drained →
      Q (conn.resume ((conn.session s.store).onReadable o.clock s.aof o.incoming).2)
        (.read ending)) :
    (s.onClientEvents fd events o).AllClients P Q := by
  rw [onClientEvents_eq]
  -- a hangup drops whatever was to be read
  split_ifs with hhangup
  · exact closeClient_allClients h fun conn _ => hkept.other conn _ nofun
  · have hread : (s.readIfReady fd events o).AllClients P Q := by
      rw [readIfReady]
      split_ifs with hinput
      · refine onClientReadable_allClients hkept h (hclosing ?_) _
        rw [Events.reads, hinput, Bool.eq_false_iff.mpr hhangup]
        rfl
      · exact h
    rw [writeIfReady]
    split_ifs
    · exact onClientWritable_allClients hkept hread _ _
    · exact hread

/-- **One step** keeps what is true of each client, if what its `on_readable` closes
is as it should. -/
theorem deliver_allClients (hkept : Kept P Q) (hs : s.Consistent none) (h : s.AllClients P Q)
    {r : Ready}
    (hclosing : r.events.reads = true → ∀ conn, s.clients.find? r.fd = some conn →
      let ending := (conn.session s.store).readEnd r.outcomes.clock s.aof r.outcomes.incoming
      ending ≠ .drained →
      Q (conn.resume
          ((conn.session s.store).onReadable r.outcomes.clock s.aof r.outcomes.incoming).2)
        (.read ending)) :
    (s.deliver r).AllClients P Q := by
  cases hfind : s.loop.callbacks.find? r.fd with
  | none => rwa [deliver_of_none hfind]
  | some registration =>
    rw [deliver_of_some hfind]
    cases hcallback : registration.callback with
    | listener =>
      rw [invoke]
      split_ifs
      · exact shutdown_allClients hkept h
      · exact onNewConnection_allClients hkept _ h
    | signals =>
      rw [invoke]
      split_ifs
      · exact shutdown_allClients hkept h
      · exact onSignal_allClients hkept h _
    -- only here can a read end a connection, and the callback names the one it is for
    | client fd =>
      obtain ⟨rfl, -⟩ := hs.find?_of_callback hfind hcallback
      exact onClientEvents_allClients hkept h hclosing

end

/-! ## Every reply is sent or waiting -/

/-- Nothing that happens to a client breaks it. -/
theorem kept_intact : Kept Connection.Intact fun _ _ => True where
  new := Connection.intact_new
  read _ _ _ _ _ h := Connection.intact_onReadable h _ _ _ _
  write _ _ h := Connection.intact_onWritable h _
  other _ _ _ := trivial

/-- A server that has been started has no clients, and has had none. -/
theorem start_allClients {P : Connection → Prop} {Q : Connection → Cause → Prop}
    {store : Store} {aof : Aof} {o : StartOutcomes} {s : Server}
    (h : start o { store, aof } = .ok s) : s.AllClients P Q := by
  obtain ⟨signalFd, listenFd, -, -, rfl⟩ := start_ok h
  constructor
  · intro fd conn hfind
    cases hfind
  · exact fun conn cause hmem => absurd hmem List.not_mem_nil

/-- **In every run**, what was sent to a client and what is unsent are the replies to its
requests, in order. -/
theorem Reachable.intact {s : Server} (h : Reachable s) {fd : Fd} {conn : Connection}
    (hfind : s.clients.find? fd = some conn) : conn.Intact := by
  suffices hall : s.AllClients Connection.Intact fun _ _ => True from hall.live fd conn hfind
  clear hfind
  induction h with
  | start _ h => exact start_allClients h
  | deliver r _ h ih =>
    exact deliver_allClients kept_intact h.consistent ih fun _ _ _ _ => trivial
  | shutdown _ ih => exact shutdown_allClients kept_intact ih

/-! ## Orderly closes -/

/-- What the socket says is never that a message is malformed. -/
theorem ending_ne_malformed (incoming : Incoming) : incoming.ending ≠ .malformed := by
  induction incoming with
  | data chunk next ih => exact ih
  | wouldBlock => exact nofun
  | eof => exact nofun
  | failed => exact nofun

/-- A call closes in an orderly way if its bytes have a malformed message, or end. -/
theorem orderly_iff {clock : Nat → UInt64} {aof : Aof} (session : Session)
    (incoming : Incoming) :
    Cause.Orderly (.read (session.readEnd clock aof incoming)) ↔
      (session.received incoming).failed = true ∨ incoming.ending = .eof := by
  rw [Session.readEnd_eq, Cause.Orderly, Cause.read.injEq, Cause.read.injEq]
  by_cases hfailed : (session.received incoming).failed = true
  · rw [if_pos hfailed]
    exact iff_of_true (.inr rfl) (.inl hfailed)
  · rw [if_neg hfailed]
    constructor
    · exact fun h => .inr (h.resolve_right (ending_ne_malformed incoming))
    · exact fun h => .inl (h.resolve_left hfailed)

/-- If the event has `on_readable` close the connection in an orderly way, then the call
starts with no reply to a command unsent, and completes no command. -/
def Settled (s : Server) (r : Ready) : Prop :=
  r.events.reads = true → ∀ conn, s.clients.find? r.fd = some conn →
    let received := (conn.session s.store).received r.outcomes.incoming
    received.failed = true ∨ r.outcomes.incoming.ending = .eof →
      conn.Delivered ∧ ∀ value ∈ received.values, ∀ cmd, parseCommand value ≠ .ok cmd

/-- The servers that settled events lead to. -/
inductive SettledRun : Server → Prop
  | start {store : Store} {aof : Aof} {o : StartOutcomes} {s : Server}
      (hfresh : o.socket ≠ o.signals) (h : start o { store, aof } = .ok s) : SettledRun s
  | deliver {s : Server} (r : Ready) (hfresh : s.Admits r) (hsettled : s.Settled r)
      (h : SettledRun s) : SettledRun (s.deliver r)
  | shutdown {s : Server} (h : SettledRun s) : SettledRun s.shutdown

/-- A run of settled events is a run. -/
theorem SettledRun.reachable {s : Server} (h : SettledRun s) : Reachable s := by
  induction h with
  | start hfresh h => exact .start hfresh h
  | deliver r hfresh _ _ ih => exact .deliver r hfresh ih
  | shutdown _ ih => exact .shutdown ih

/-- What is promised of a closed client is about the two ways in which `on_readable` closes one. -/
theorem kept_delivered :
    Kept (fun _ => True) fun conn cause => cause.Orderly → conn.Delivered where
  new _ := trivial
  read _ _ _ _ _ _ := trivial
  write _ _ _ := trivial
  other _ _ hcause horderly := horderly.elim (absurd · (hcause _)) (absurd · (hcause _))

/-- **No reply is dropped** by an orderly close, in a run of settled events: the replies
to all commands dispatched have been handed to `send` in full. -/
theorem no_reply_dropped {s : Server} (h : SettledRun s) {conn : Connection} {cause : Cause}
    (hmem : (conn, cause) ∈ s.record.destroyed) (horderly : cause.Orderly) :
    conn.Delivered := by
  suffices hall : s.AllClients (fun _ => True) fun conn cause => cause.Orderly → conn.Delivered
    from hall.gone conn cause hmem horderly
  clear hmem
  induction h with
  | start _ h => exact start_allClients h
  | deliver r _ hsettled h ih =>
    refine deliver_allClients kept_delivered h.reachable.consistent ih
      fun hreads conn hfind _ horderly => ?_
    -- what was unsent when the call began is still unsent when it closes
    rw [Connection.delivered_onReadable (h.reachable.intact hfind)]
    exact hsettled hreads conn hfind ((orderly_iff _ _).mp horderly)
  | shutdown _ ih => exact shutdown_allClients kept_delivered ih

/-- There is nothing to write to a client that is gone. -/
theorem writeIfReady_of_none {s : Server} {fd : Fd} (h : s.clients.find? fd = none)
    (events : Events) (o : Outcomes) : s.writeIfReady fd events o = s := by
  rw [writeIfReady, h]
  exact if_neg Bool.false_ne_true

/-- What closing adds to the list of those destroyed. -/
theorem destroyed_closeClient {s : Server} {fd : Fd} {conn : Connection}
    (h : s.clients.find? fd = some conn) (cause : Cause) :
    (s.closeClient cause fd).record.destroyed = s.record.destroyed ++ [(conn, cause)] := by
  rw [closeClient, h]
  rfl

/-- An orderly close destroys the client as `on_readable` leaves it. -/
theorem destroyed_deliver {s : Server} (h : Reachable s) {r : Ready}
    (hreads : r.events.reads = true) {conn : Connection}
    (hfind : s.clients.find? r.fd = some conn)
    (hends : ((conn.session s.store).received r.outcomes.incoming).failed = true ∨
      r.outcomes.incoming.ending = .eof) :
    ∃ cause, cause.Orderly ∧ (s.deliver r).record.destroyed = s.record.destroyed ++
      [(conn.resume ((conn.session s.store).onReadable r.outcomes.clock s.aof
        r.outcomes.incoming).2, cause)] := by
  obtain ⟨events, hevents, -⟩ := h.consistent.client r.fd conn hfind nofun
  obtain ⟨hhangup, hinput⟩ := (Bool.and_eq_true_iff.mp hreads : _ ∧ _)
  have horderly : Cause.Orderly (.read
      ((conn.session s.store).readEnd r.outcomes.clock s.aof r.outcomes.incoming)) :=
    (orderly_iff _ _).mpr hends
  have hcloses : ¬ ((conn.session s.store).onReadable r.outcomes.clock s.aof
      r.outcomes.incoming).1 = true := by
    rw [Session.onReadable_fst]
    intro hdrained
    rw [hdrained] at horderly
    rcases horderly with heq | heq <;> cases heq
  refine ⟨_, horderly, ?_⟩
  -- the client is closed by its read, so nothing is left for the write
  rw [deliver_of_some hevents]
  show (s.onClientEvents r.fd r.events r.outcomes).record.destroyed = _
  rw [onClientEvents_eq, if_neg (by rwa [Bool.not_eq_true', ← Bool.not_eq_true] at hhangup),
    readIfReady, if_pos hinput, onClientReadable_of_some hfind rfl, if_neg hcloses,
    writeIfReady_of_none (by rw [find?_closeClient, if_pos rfl]),
    destroyed_closeClient (FlatMap.find?_insert_self _ _ _)]
  rfl

/-- A client that sends `PING`, is answered in two parts, and then closes its side. -/
theorem no_reply_dropped_ping :
    let ping : Chunk := ⟨ascii "*1\r\n$4\r\nPING\r\n", by decide, by decide⟩
    let s := (started .empty {} 3 4).runOnce [
      { fd := 4, events := { input := true },
        outcomes := { accepting := .connection 7 true .failed } },
      { fd := 7, events := { input := true },
        outcomes := { incoming := .data ping .wouldBlock } },
      { fd := 7, events := { output := true },
        outcomes := { outgoing := .taken 2 (.taken 9 .wouldBlock) } },
      { fd := 7, events := { input := true }, outcomes := { incoming := .eof } }]
    ∃ conn cause, (conn, cause) ∈ s.record.destroyed ∧ cause.Orderly ∧
      conn.log.map Exchange.command = [some ⟨ascii "PING", []⟩] ∧
      conn.sent = ascii "+PONG\r\n" ∧ conn.Delivered := by
  intro ping s
  let values : List RespValue := [.array [.string (ascii "PING")]]
  let o : Outcomes := { incoming := .data ping .wouldBlock }
  let accepted := (started .empty {} 3 4).deliver
    { fd := 4, events := { input := true },
      outcomes := { accepting := .connection 7 true .failed } }
  let session := Connection.session { object := 0 } accepted.store
  have hvalues : ∀ v ∈ values, NoCrlfErrors v ∧ SizesBelow (2 ^ 63) v :=
    List.forall_mem_singleton.mpr (@strings_encodable [ascii "PING"] (by decide))
  have hreceived : session.received o.incoming = ⟨values, [], false⟩ :=
    received_encoded rfl hvalues ping rfl rfl
  have hresult : session.onReadable o.clock {} o.incoming =
      session.after o.clock {} ⟨values, [], false⟩ := onReadable_encoded rfl hvalues ping rfl
  have hread := @onClientReadable_of_some accepted 7 { object := 0 } rfl _ _ _ hresult true
  let asked := accepted.deliver { fd := 7, events := { input := true }, outcomes := o }
  let answered := asked.deliver
    { fd := 7, events := { output := true },
      outcomes := { outgoing := .taken 2 (.taken 9 .wouldBlock) } }
  have hasked : asked = (accepted.onClientReadable 7 o.clock o.incoming true).writeIfReady 7
      { input := true } o := rfl
  rw [hread] at hasked
  have hstarted : SettledRun (started .empty {} 3 4) :=
    .start (o := { signals := some 3, socket := some 4 }) (by decide) rfl
  have haccepted : SettledRun accepted := by
    refine .deliver _ ⟨by decide, trivial⟩ ?_ hstarted
    intro _ conn hfind
    cases hfind
  have hanswered : SettledRun answered := by
    refine .deliver _ trivial nofun (.deliver _ trivial ?_ haccepted)
    -- the request is well formed, and nothing ends the stream yet
    intro _ conn hfind received hends
    obtain rfl : { object := 0 } = conn := Option.some.inj hfind
    have hreceived : received = ⟨values, [], false⟩ := hreceived
    rw [hreceived] at hends
    rcases hends with hfailed | hending
    · cases hfailed
    · cases hending
  obtain ⟨conn, hfind, hreading, hlog, hsent⟩ : ∃ conn, answered.clients.find? 7 = some conn ∧
      conn.client.state = .reading ∧
      conn.log.map Exchange.command = [some ⟨ascii "PING", []⟩] ∧
      conn.sent = ascii "+PONG\r\n" := by
    have hrun : answered = asked.deliver _ := rfl
    rw [hrun, hasked]
    exact ⟨_, rfl, rfl, rfl, rfl⟩
  have h : SettledRun s := by
    refine .deliver _ trivial ?_ hanswered
    intro _ conn' hfind' received _
    obtain rfl := Option.some.inj (hfind.symm.trans hfind')
    refine ⟨(hanswered.reachable.intact hfind).delivered hreading, fun value hvalue => ?_⟩
    have hnone : received.values = [] := rfl
    rw [hnone] at hvalue
    cases hvalue
  obtain ⟨cause, horderly, hdestroyed⟩ := destroyed_deliver hanswered.reachable
    (r := { fd := 7, events := { input := true }, outcomes := { incoming := .eof } })
    rfl hfind (.inr rfl)
  have hlast : s = answered.deliver
      { fd := 7, events := { input := true }, outcomes := { incoming := .eof } } := by
    simp only [s, answered, asked, accepted, o, runOnce, runBatch, List.foldl_cons, List.foldl_nil]
  have hmem : (conn.resume (conn.session answered.store), cause) ∈ s.record.destroyed := by
    rw [hlast, hdestroyed]
    exact List.mem_append_right _ List.mem_cons_self
  exact ⟨_, cause, hmem, horderly, hlog, hsent, no_reply_dropped h hmem horderly⟩

/-- **Exactly when an orderly close drops nothing**: if the event is settled. -/
theorem delivered_iff_settled {s : Server} (h : Reachable s) {r : Ready}
    (hreads : r.events.reads = true) {conn : Connection}
    (hfind : s.clients.find? r.fd = some conn)
    (hends : ((conn.session s.store).received r.outcomes.incoming).failed = true ∨
      r.outcomes.incoming.ending = .eof) :
    ∃ closed cause, cause.Orderly ∧
      (s.deliver r).record.destroyed = s.record.destroyed ++ [(closed, cause)] ∧
      (closed.Delivered ↔ s.Settled r) := by
  obtain ⟨cause, horderly, hdestroyed⟩ := destroyed_deliver h hreads hfind hends
  refine ⟨_, cause, horderly, hdestroyed, ?_⟩
  rw [Connection.delivered_onReadable (h.intact hfind)]
  constructor
  · intro hdelivered _ conn' hfind' _ _
    obtain rfl := Option.some.inj (hfind.symm.trans hfind')
    exact hdelivered
  · exact fun hsettled => hsettled hreads conn hfind hends

/-- A client that sends `PING` and closes its side gets no answer. -/
theorem reply_dropped_at_eof :
    let ping : Chunk := ⟨ascii "*1\r\n$4\r\nPING\r\n", by decide, by decide⟩
    let s := ((started .empty {} 3 4).deliver
      { fd := 4, events := { input := true },
        outcomes := { accepting := .connection 7 true .failed } }).deliver
      { fd := 7, events := { input := true }, outcomes := { incoming := .data ping .eof } }
    Reachable s ∧ ∃ conn cause, (conn, cause) ∈ s.record.destroyed ∧ cause.Orderly ∧
      conn.log.map Exchange.command = [some ⟨ascii "PING", []⟩] ∧ conn.sent = [] ∧
      ¬ conn.Delivered := by
  intro ping s
  let accepted := (started .empty {} 3 4).deliver
    { fd := 4, events := { input := true },
      outcomes := { accepting := .connection 7 true .failed } }
  have h : Reachable accepted :=
    .deliver _ ⟨by decide, trivial⟩ (reachable_started (by decide) .empty {})
  have hfind : accepted.clients.find? 7 = some { object := 0 } := rfl
  have hreceived : (Connection.session { object := 0 } accepted.store).received
      (.data ping .eof) = ⟨[.array [.string (ascii "PING")]], [], false⟩ := by
    have hencodable := @strings_encodable [ascii "PING"] (by decide)
    exact received_encoded rfl (List.forall_mem_singleton.mpr hencodable) ping rfl rfl
  obtain ⟨cause, horderly, hdestroyed⟩ := destroyed_deliver h
    (r := { fd := 7, events := { input := true }, outcomes := { incoming := .data ping .eof } })
    rfl hfind (.inr rfl)
  refine ⟨.deliver _ trivial h, _, cause,
    hdestroyed ▸ List.mem_append_right _ List.mem_cons_self, horderly, ?_, rfl, ?_⟩
  · rw [Connection.log_onReadable]
    show List.map Exchange.command (exchanges _ _ _ _).1 = _
    rw [exchanges_command, hreceived]
    decide
  · rw [Connection.delivered_onReadable (h.intact hfind), hreceived]
    rintro ⟨-, hnone⟩
    exact hnone _ List.mem_cons_self ⟨ascii "PING", []⟩ (by decide)

end Server

end Redix
