import Redix.Base.Progress
import Redix.Server.Serial

/-!
# Every reply is delivered

A reply is enqueued when its command has run; from then on it takes writable events until
`send` has accepted all of it. The kernel reports a writable descriptor only to those who
registered for it, and the server changes its interest set at every turn, so it is not
obvious that the last byte ever leaves.

- `Connection.Grows`: from event to event, a client's log and what it has been sent only get
  longer (`deliver_grows`);
- `deliver_writes`: a writable event with room sends something, if there is anything to send;
- `replies_delivered`: so every reply is sent in the end to a client that stays, as long as
  the kernel reports room to those that are registered for it.
-/

namespace Redix

/-! ## Clients grow -/

namespace Connection

variable {conn conn' conn'' : Connection}

/-- The client later on. -/
structure Grows (conn conn' : Connection) : Prop where
  object : conn'.object = conn.object
  log : conn.log <+: conn'.log
  sent : conn.sent <+: conn'.sent

/-- Nothing is lost if nothing happens. -/
theorem Grows.refl (conn : Connection) : conn.Grows conn :=
  ⟨rfl, List.prefix_refl _, List.prefix_refl _⟩

/-- What two steps add, both together do. -/
theorem Grows.trans (h : conn.Grows conn') (h' : conn'.Grows conn'') : conn.Grows conn'' :=
  ⟨h'.object.trans h.object, h.log.trans h'.log, h.sent.trans h'.sent⟩

/-- Reading adds requests to the log. -/
theorem grows_resume (conn : Connection) (store : Store) (clock : Nat → UInt64) (aof : Aof)
    (incoming : Incoming) :
    conn.Grows (conn.resume ((conn.session store).onReadable clock aof incoming).2) := by
  refine ⟨rfl, ?_, List.prefix_refl _⟩
  rw [conn.log_onReadable]
  exact List.prefix_append _ _

/-- Sending adds bytes to what is sent. -/
theorem grows_flushed (conn : Connection) (out : Outgoing) :
    conn.Grows (conn.flushed (conn.client.onWritable out)) :=
  ⟨rfl, List.prefix_refl _, List.prefix_append _ _⟩

/-- The bytes of the replies logged. -/
def replies (conn : Connection) : Bytes := (conn.log.map Exchange.reply).flatten

/-- The replies of before are the first of the replies now. -/
theorem Grows.replies (h : conn.Grows conn') : conn.replies <+: conn'.replies := by
  obtain ⟨later, hlater⟩ := h.log
  rw [Connection.replies, Connection.replies, ← hlater, List.map_append, List.flatten_append]
  exact List.prefix_append _ _

/-- As long as not all replies have been sent, something is unsent. -/
theorem Intact.unsent_ne_nil (h : conn.Intact) (hshort : conn.sent.length < conn.replies.length) :
    conn.client.unsent ≠ [] := by
  intro hnil
  have hstream : conn.sent ++ conn.client.unsent = conn.replies := h.stream
  rw [hnil, List.append_nil] at hstream
  exact Nat.lt_irrefl _ (hstream ▸ hshort)

end Connection

/-- With room, something is sent. -/
theorem Client.sent_taken {client : Client} (h : client.unsent ≠ []) (spare : Nat)
    (next : Outgoing) : 0 < (client.onWritable (.taken spare next)).sent.length := by
  have hlt : client.writeOffset < client.writeBuf.length := by
    rw [← Nat.not_le]
    exact fun hle => h (unsent_eq_nil.mpr hle)
  rw [onWritable, if_pos hlt]
  simp only [List.length_append, List.length_take, List.length_drop]
  omega

/-- Without a failure, the connection stays. -/
theorem Client.stays_taken (client : Client) (spare : Nat) :
    (client.onWritable (.taken spare .wouldBlock)).stays = true := by
  rw [onWritable]
  split_ifs with hlt
  · show (onWritable _ .wouldBlock).stays = true
    rw [onWritable]
    split_ifs <;> rfl
  · rfl

namespace Server

variable {s : Server} {fd : Fd} {conn conn' : Connection}

/-! ## What one event does to a client that stays -/

/-- A client that is there after a change of interest was there before. -/
theorem find?_setInterest {events : Events} {modified : Bool}
    (h : (s.setInterest fd events modified).clients.find? fd = some conn) :
    s.clients.find? fd = some conn := by
  cases modified with
  | true => exact h
  | false =>
    rw [setInterest, if_neg Bool.false_ne_true, find?_closeClient, if_pos rfl] at h
    cases h

/-- What became of a client that was read for, if it is still there. -/
theorem find?_onClientReadable (hfind : s.clients.find? fd = some conn) {clock : Nat → UInt64}
    {incoming : Incoming} {modified : Bool}
    (hafter : (s.onClientReadable fd clock incoming modified).clients.find? fd = some conn') :
    conn' = conn.resume ((conn.session s.store).onReadable clock s.aof incoming).2 := by
  rw [onClientReadable_of_some hfind rfl] at hafter
  split_ifs at hafter
  · exact (FlatMap.eq_of_find?_insert (find?_setInterest hafter)).symm
  · exact (FlatMap.eq_of_find?_insert hafter).symm
  · rw [find?_closeClient, if_pos rfl] at hafter
    cases hafter

/-- What became of a client that was written to, if it is still there. -/
theorem find?_onClientWritable (hfind : s.clients.find? fd = some conn) {outgoing : Outgoing}
    {modified : Bool}
    (hafter : (s.onClientWritable fd outgoing modified).clients.find? fd = some conn') :
    conn' = conn.flushed (conn.client.onWritable outgoing) := by
  rw [onClientWritable_of_some hfind rfl] at hafter
  split_ifs at hafter
  · exact (FlatMap.eq_of_find?_insert (find?_setInterest hafter)).symm
  · exact (FlatMap.eq_of_find?_insert hafter).symm
  · rw [find?_closeClient, if_pos rfl] at hafter
    cases hafter

/-- A client's callback is a read and then a write, or neither. -/
theorem onClientEvents_grows (hfind : s.clients.find? fd = some conn) {events : Events}
    {o : Outcomes} (hafter : (s.onClientEvents fd events o).clients.find? fd = some conn') :
    ∃ conn₁, (conn₁ = conn ∨ conn₁ =
        conn.resume ((conn.session s.store).onReadable o.clock s.aof o.incoming).2) ∧
      conn' = if events.output then conn₁.flushed (conn₁.client.onWritable o.outgoing)
        else conn₁ := by
  rw [onClientEvents_eq] at hafter
  split_ifs at hafter with hhangup
  · rw [find?_closeClient, if_pos rfl] at hafter
    cases hafter
  -- reading may close the client, and then there is nothing to write to
  cases hread : (s.readIfReady fd events o).clients.find? fd with
  | none =>
    rw [writeIfReady_of_none hread, hread] at hafter
    cases hafter
  | some conn₁ =>
    refine ⟨conn₁, ?_, ?_⟩
    · rw [readIfReady] at hread
      split_ifs at hread
      · exact .inr (find?_onClientReadable hfind hread)
      · exact .inl (Option.some.inj (hread.symm.trans hfind))
    · rw [writeIfReady, hread, Option.isSome_some, Bool.true_and] at hafter
      split_ifs at hafter ⊢
      · exact find?_onClientWritable hread hafter
      · exact Option.some.inj (hafter.symm.trans hread)

/-- **From event to event** a client grows, if it stays. -/
theorem deliver_grows (hs : s.Consistent none) {r : Ready} (hfresh : s.Admits r)
    (hfind : s.clients.find? fd = some conn)
    (hafter : (s.deliver r).clients.find? fd = some conn') : conn.Grows conn' := by
  -- a client that the event is not for is as it was, unless it has gone
  have hsame (h : (s.deliver r).clients.find? fd = s.clients.find? fd) : conn.Grows conn' := by
    rw [h, hfind] at hafter
    exact Option.some.inj hafter ▸ .refl conn
  have hshutdown : s.shutdown.clients.find? fd = none := by
    obtain ⟨hclients, -⟩ := s.clientsClosed.closeServer_fields
    rw [shutdown_eq, hclients, find?_clientsClosed]
  cases hcallback : s.loop.callbacks.find? r.fd with
  | none => exact hsame (by rw [deliver_of_none hcallback])
  | some registration =>
    obtain ⟨events, callback⟩ := registration
    rw [deliver_of_some hcallback] at hafter hsame
    cases callback with
    | listener =>
      rw [invoke] at hafter hsame
      split_ifs at hafter hsame
      · rw [hshutdown] at hafter
        cases hafter
      · exact hsame ((onNewConnection_leavesOpen _ hfresh).clients fd (.inl (by rw [hfind]; rfl)))
    | signals =>
      rw [invoke] at hafter hsame
      split_ifs at hafter hsame
      · rw [hshutdown] at hafter
        cases hafter
      · rcases onSignal_cases r.outcomes.signals s with heq | hclosed
        · exact hsame (by rw [heq])
        · rw [((onSignal_consistent _ hs).closed hclosed).2 fd] at hafter
          cases hafter
    | client fd' =>
      obtain ⟨rfl, -⟩ := hs.find?_of_callback hcallback rfl
      by_cases hfd : fd = r.fd
      · subst hfd
        obtain ⟨conn₁, hread, hwrite⟩ := onClientEvents_grows hfind hafter
        have hgrows : conn.Grows conn₁ := by
          rcases hread with rfl | rfl
          · exact .refl _
          · exact conn.grows_resume _ _ _ _
        rw [hwrite]
        split_ifs
        · exact hgrows.trans (conn₁.grows_flushed _)
        · exact hgrows
      · obtain ⟨conn₀, hconn₀⟩ := (hs.find?_of_callback hcallback rfl).2
        have hworks := onClientEvents_worksOn
          (fun conn hconn => by rw [Option.some.inj (hconn.symm.trans hconn₀)]) r.events r.outcomes
        exact hsame (hworks.clients fd hfd)

/-- **A writable event with room** sends something to a client that stays and has not been sent
all its replies. -/
theorem deliver_writes (hs : Reachable s) {r : Ready} (hfd : r.fd = fd)
    (houtput : r.events.output = true) {spare : Nat} {next : Outgoing}
    (hroom : r.outcomes.outgoing = .taken spare next) (hfind : s.clients.find? fd = some conn)
    (hshort : conn.sent.length < conn.replies.length)
    (hafter : (s.deliver r).clients.find? fd = some conn') :
    conn.sent.length < conn'.sent.length := by
  subst hfd
  obtain ⟨events, hevents, -⟩ := hs.consistent.client r.fd conn hfind fun h => by cases h
  rw [deliver_of_some hevents] at hafter
  obtain ⟨conn₁, hread, hwrite⟩ := onClientEvents_grows hfind hafter
  have hintact := hs.intact hfind
  -- a read sends nothing and adds replies, so there is still something to send
  obtain ⟨hsent, hunsent⟩ : conn₁.sent = conn.sent ∧ conn₁.client.unsent ≠ [] := by
    rcases hread with rfl | rfl
    · exact ⟨rfl, hintact.unsent_ne_nil hshort⟩
    · refine ⟨rfl, (Connection.intact_onReadable hintact _ _ _ _).unsent_ne_nil ?_⟩
      exact Nat.lt_of_lt_of_le hshort (conn.grows_resume _ _ _ _).replies.length_le
  have hpos := Client.sent_taken hunsent spare next
  rw [hwrite, if_pos houtput, hroom]
  show conn.sent.length < (conn₁.sent ++ _).length
  rw [List.length_append, hsent]
  omega

/-- A client that has not been sent all its replies is registered for output. -/
theorem Reachable.registered_of_short (hs : Reachable s) (hfind : s.clients.find? fd = some conn)
    (hshort : conn.sent.length < conn.replies.length) :
    ∃ registration, s.loop.callbacks.find? fd = some registration ∧
      registration.events.output = true := by
  obtain ⟨events, hevents, -, houtput⟩ := hs.consistent.client fd conn hfind fun h => by cases h
  refine ⟨_, hevents, houtput.mpr ?_⟩
  have htidy := (hs.intact hfind).tidy
  cases hstate : conn.client.state with
  | reading => exact absurd (htidy.reading_iff.mp hstate) ((hs.intact hfind).unsent_ne_nil hshort)
  | writing => rfl
  | closing => exact absurd hstate htidy.not_closing

/-! ## Infinite runs -/

/-- An infinite run of events, one after another. -/
structure Forever (events : Nat → Ready) (s : Nat → Server) : Prop where
  start : Reachable (s 0)
  admits : ∀ n, (s n).Admits (events n)
  step : ∀ n, s (n + 1) = (s n).deliver (events n)

/-- Each state of an infinite run is reached by a finite one. -/
theorem Forever.reachable {events : Nat → Ready} {s : Nat → Server} (h : Forever events s) :
    ∀ n, Reachable (s n)
  | 0 => h.start
  | n + 1 => h.step n ▸ .deliver _ (h.admits n) (h.reachable n)

/-- **Every reply is delivered.** In an infinite run, let a client stay from some time on, and
let the kernel be fair to it: whenever the client is registered for output, a writable event
comes in which `send` takes at least a byte. Then all the replies to the requests answered by
that time have been sent in full at some later time. -/
theorem replies_delivered {events : Nat → Ready} {s : Nat → Server} (h : Forever events s)
    {start : Nat} (hstays : ∀ n, start ≤ n → ((s n).clients.find? fd).isSome)
    (hfair : ∀ n, start ≤ n →
      (∃ registration, (s n).loop.callbacks.find? fd = some registration ∧
        registration.events.output = true) →
      ∃ m, n ≤ m ∧ (events m).fd = fd ∧ (events m).events.output = true ∧
        ∃ spare next, (events m).outcomes.outgoing = .taken spare next)
    (hfind : (s start).clients.find? fd = some conn) :
    ∃ n, start ≤ n ∧ ∃ conn', (s n).clients.find? fd = some conn' ∧
      conn'.object = conn.object ∧
      (conn.log.map Exchange.reply).flatten <+: conn'.sent := by
  have hclient (n : Nat) (hn : start ≤ n) : ∃ conn, (s n).clients.find? fd = some conn :=
    Option.isSome_iff_exists.mp (hstays n hn)
  have hstep (n : Nat) (conn conn' : Connection) (hconn : (s n).clients.find? fd = some conn)
      (hconn' : (s (n + 1)).clients.find? fd = some conn') : conn.Grows conn' :=
    deliver_grows (h.reachable n).consistent (h.admits n) hconn (h.step n ▸ hconn')
  -- the client at the start, and at any time after
  have hgrows (n : Nat) (hn : start ≤ n) (conn' : Connection)
      (hconn' : (s n).clients.find? fd = some conn') : conn.Grows conn' := by
    refine Progress.kept start (fun n m => ∀ c c', (s n).clients.find? fd = some c →
      (s m).clients.find? fd = some c' → c.Grows c') (fun n c c' hc hc' => ?_)
      (fun n m hm ih c c' hc hc' => ?_) (Nat.le_refl start) hn conn conn' hfind hconn'
    · exact Option.some.inj (hc.symm.trans hc') ▸ .refl c
    · obtain ⟨c₁, hc₁⟩ := hclient m hm
      exact (ih c c₁ hc hc₁).trans (hstep m c₁ c' hc₁ hc')
  -- what the client has been sent so far is the count that rises
  let count (n : Nat) : Nat := ((s n).clients.find? fd).elim 0 fun conn => conn.sent.length
  have hcount {n : Nat} {conn : Connection} (hconn : (s n).clients.find? fd = some conn) :
      count n = conn.sent.length := by
    show ((s n).clients.find? fd).elim 0 _ = _
    rw [hconn]
    rfl
  have hmono (n : Nat) (hn : start ≤ n) : count n ≤ count (n + 1) := by
    obtain ⟨c, hc⟩ := hclient n hn
    obtain ⟨c', hc'⟩ := hclient (n + 1) (by omega)
    rw [hcount hc, hcount hc']
    exact (hstep n c c' hc hc').sent.length_le
  have hrises (n : Nat) (hn : start ≤ n) (hshort : count n < conn.replies.length) :
      ∃ m, n ≤ m ∧ (count m < conn.replies.length → count m < count (m + 1)) := by
    obtain ⟨c, hc⟩ := hclient n hn
    rw [hcount hc] at hshort
    obtain ⟨m, hm, hfd, houtput, spare, next, hroom⟩ := hfair n hn
      ((h.reachable n).registered_of_short hc
        (Nat.lt_of_lt_of_le hshort (hgrows n hn c hc).replies.length_le))
    refine ⟨m, hm, fun hshort => ?_⟩
    obtain ⟨c, hc⟩ := hclient m (by omega)
    obtain ⟨c', hc'⟩ := hclient (m + 1) (by omega)
    rw [hcount hc] at hshort ⊢
    rw [hcount hc']
    exact deliver_writes (h.reachable m) hfd houtput hroom hc
      (Nat.lt_of_lt_of_le hshort (hgrows m (by omega) c hc).replies.length_le) (h.step m ▸ hc')
  obtain ⟨n, hn, hreached⟩ := Progress.count_reaches start count conn.replies.length hmono hrises
  obtain ⟨c, hc⟩ := hclient n hn
  rw [hcount hc] at hreached
  have hstream : c.sent ++ c.client.unsent = c.replies := ((h.reachable n).intact hc).stream
  refine ⟨n, hn, c, hc, (hgrows n hn c hc).object, ?_⟩
  exact List.prefix_of_prefix_length_le (hgrows n hn c hc).replies
    (hstream ▸ List.prefix_append _ _) hreached

/-- Being sent something without a failure, a client stays. -/
theorem Reachable.stays_deliver (hs : Reachable s) (hclient : (s.clients.find? fd).isSome)
    (spare : Nat) :
    ((s.deliver
      { fd, events := { output := true },
        outcomes := { outgoing := .taken spare .wouldBlock } }).clients.find? fd).isSome := by
  obtain ⟨conn, hfind⟩ := Option.isSome_iff_exists.mp hclient
  obtain ⟨events, hevents, -⟩ := hs.consistent.client fd conn hfind fun h => by cases h
  rw [deliver_of_some hevents]
  show ((s.writeIfReady fd { output := true }
    { outgoing := .taken spare .wouldBlock }).clients.find? fd).isSome
  rw [writeIfReady, if_pos (by rw [hclient]; rfl), onClientWritable_of_some hfind rfl,
    if_pos (conn.client.stays_taken spare)]
  split_ifs
  · show ((s.clients.insert fd _).find? fd).isSome
    rw [FlatMap.find?_insert, if_pos rfl]
    rfl
  · show ((s.clients.insert fd _).find? fd).isSome
    rw [FlatMap.find?_insert, if_pos rfl]
    rfl

theorem replies_delivered_bytewise :
    let ping : Chunk := ⟨ascii "*1\r\n$4\r\nPING\r\n", by decide, by decide⟩
    let s₀ := ((started .empty {} 3 4).deliver
      { fd := 4, events := { input := true },
        outcomes := { accepting := .connection 7 true .failed } }).deliver
      { fd := 7, events := { input := true },
        outcomes := { incoming := .data ping .wouldBlock } }
    let writable : Ready :=
      { fd := 7, events := { output := true },
        outcomes := { outgoing := .taken 0 .wouldBlock } }
    ∃ n conn, ((deliver writable)^[n] s₀).clients.find? 7 = some conn ∧
      ascii "+PONG\r\n" <+: conn.sent := by
  intro ping s₀ writable
  let values : List RespValue := [.array [.string (ascii "PING")]]
  let o : Outcomes := { incoming := .data ping .wouldBlock }
  let accepted := (started .empty {} 3 4).deliver
    { fd := 4, events := { input := true },
      outcomes := { accepting := .connection 7 true .failed } }
  let session := Connection.session { object := 0 } accepted.store
  have hvalues : ∀ v ∈ values, NoCrlfErrors v ∧ SizesBelow (2 ^ 63) v :=
    List.forall_mem_singleton.mpr (@strings_encodable [ascii "PING"] (by decide))
  have hresult : session.onReadable o.clock {} o.incoming =
      session.after o.clock {} ⟨values, [], false⟩ := onReadable_encoded rfl hvalues ping rfl
  have hread := @onClientReadable_of_some accepted 7 { object := 0 } rfl _ _ _ hresult true
  obtain ⟨conn, hfind, hlog⟩ : ∃ conn, s₀.clients.find? 7 = some conn ∧
      (conn.log.map Exchange.reply).flatten = ascii "+PONG\r\n" := by
    have hrun : s₀ = (accepted.onClientReadable 7 o.clock o.incoming true).writeIfReady 7
        { input := true } o := rfl
    rw [hrun, writeIfReady, Bool.and_false, if_neg Bool.false_ne_true, hread]
    exact ⟨_, rfl, rfl⟩
  have hreachable : Reachable s₀ :=
    .deliver _ trivial (.deliver _ ⟨by decide, trivial⟩ (reachable_started (by decide) .empty {}))
  have hforever : Forever (fun _ => writable) fun n => (deliver writable)^[n] s₀ :=
    ⟨hreachable, fun _ => trivial, fun n => Function.iterate_succ_apply' _ n s₀⟩
  have hstays (n : Nat) : (((deliver writable)^[n] s₀).clients.find? 7).isSome := by
    induction n with
    | zero => exact Option.isSome_iff_exists.mpr ⟨conn, hfind⟩
    | succ n ih =>
      rw [Function.iterate_succ_apply']
      exact (hforever.reachable n).stays_deliver ih 0
  obtain ⟨n, -, conn', hconn', -, hsent⟩ :=
    @replies_delivered 7 conn _ _ hforever 0 (fun n _ => hstays n)
      (fun n _ _ => ⟨n, Nat.le_refl n, rfl, rfl, 0, .wouldBlock, rfl⟩) hfind
  exact ⟨n, conn', hconn', hlog ▸ hsent⟩

end Server

end Redix
