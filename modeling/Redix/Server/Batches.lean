import Redix.Server.Registry

/-!
# Batches of events

`run_once` fetches a batch of events and handles them one after another, while the
callbacks close clients and accept new ones, perhaps under a descriptor of an event
that is still to come. The loop knows connections by descriptor only.

- `WorksOn`: a client's callback touches one `Client` object and changes nothing
  under another descriptor;
- `Pending`: the events still to come are for what was registered when the batch was
  fetched, unless the server has been shut down. It passes from each event to the
  rest (`deliver_pending`);
- `events_reach_their_client`: so no callback acts on another object than the one its
  event was reported for.
-/

namespace Redix

namespace Server

variable {s s' s'' : Server} {fd : Fd} {object : Nat} {conn : Connection}

/-! ## What a client's callback works on -/

/-- From `s` to `s'` only the object under `fd` was touched, and nothing changed under
other descriptors. -/
structure WorksOn (fd : Fd) (object : Nat) (s s' : Server) : Prop where
  touched : ∃ acts, s'.record.touched = s.record.touched ++ acts ∧
    ∀ act ∈ acts, act = (fd, object)
  same : ∀ conn, s'.clients.find? fd = some conn → conn.object = object
  clients : ∀ fd', fd' ≠ fd → s'.clients.find? fd' = s.clients.find? fd'
  callbacks : ∀ fd', fd' ≠ fd → s'.loop.callbacks.find? fd' = s.loop.callbacks.find? fd'
  listenFd : s'.listenFd = s.listenFd

namespace WorksOn

/-- Nothing is work on any client. -/
theorem refl (h : ∀ conn, s.clients.find? fd = some conn → conn.object = object) :
    WorksOn fd object s s := by
  constructor
  · exact ⟨[], (List.append_nil _).symm, fun _ hact => absurd hact List.not_mem_nil⟩
  · exact h
  · exact fun _ _ => rfl
  · exact fun _ _ => rfl
  · rfl

/-- Work and more work on the same client. -/
theorem trans (h : WorksOn fd object s s') (h' : WorksOn fd object s' s'') :
    WorksOn fd object s s'' := by
  constructor
  · obtain ⟨acts, htouched, hacts⟩ := h.touched
    obtain ⟨acts', htouched', hacts'⟩ := h'.touched
    refine ⟨acts ++ acts', by rw [htouched', htouched, List.append_assoc], fun act hact => ?_⟩
    exact (List.mem_append.mp hact).elim (hacts act) (hacts' act)
  · exact h'.same
  · exact fun fd' hne => (h'.clients fd' hne).trans (h.clients fd' hne)
  · exact fun fd' hne => (h'.callbacks fd' hne).trans (h.callbacks fd' hne)
  · exact h'.listenFd.trans h.listenFd

end WorksOn

/-- Closing a client is work on it. -/
theorem closeClient_worksOn (h : ∀ conn, s.clients.find? fd = some conn → conn.object = object)
    (cause : Cause) : WorksOn fd object s (s.closeClient cause fd) := by
  cases hfind : s.clients.find? fd with
  | none =>
    rw [closeClient_of_none hfind]
    exact .refl h
  | some conn =>
    constructor
    · -- the client itself is what the call works on
      refine ⟨[(fd, conn.object)], ?_, fun act hact => ?_⟩
      · rw [closeClient, hfind]
        rfl
      · rw [List.mem_singleton.mp hact, h conn hfind]
    · intro conn' hfind'
      rw [find?_closeClient, if_pos rfl] at hfind'
      cases hfind'
    · intro fd' hne
      rw [find?_closeClient, if_neg (Ne.symm hne)]
    · intro fd' hne
      rw [closeClient, hfind]
      show (s.loop.remove fd).callbacks.find? fd' = _
      rw [EventLoop.find?_remove, if_neg (Ne.symm hne)]
    · exact s.closeClient_listenFd cause fd

/-- A new state for a client is work on it, if it stays the same object. -/
theorem update_worksOn (conn' : Connection) (hobject : conn'.object = conn.object)
    (store : Store) : WorksOn fd conn.object s (s.update fd conn conn' store) := by
  constructor
  · exact ⟨[(fd, conn.object)], rfl, fun act hact => List.mem_singleton.mp hact⟩
  · intro conn₁ hfind
    obtain rfl : conn' = conn₁ := FlatMap.eq_of_find?_insert hfind
    exact hobject
  · intro fd' hne
    show (s.clients.insert fd conn').find? fd' = _
    rw [FlatMap.find?_insert, if_neg (Ne.symm hne)]
  · exact fun _ _ => rfl
  · rfl

/-- A change of interest is work on the client. -/
theorem setInterest_worksOn (h : ∀ conn, s.clients.find? fd = some conn → conn.object = object)
    (events : Events) (modified : Bool) :
    WorksOn fd object s (s.setInterest fd events modified) := by
  cases modified with
  | true =>
    constructor
    · exact ⟨[], (List.append_nil _).symm, fun _ hact => absurd hact List.not_mem_nil⟩
    · exact h
    · exact fun _ _ => rfl
    · intro fd' hne
      show (s.loop.modify fd events (.client fd) true).callbacks.find? fd' = _
      rw [EventLoop.find?_modify, if_neg (Ne.symm hne)]
    · rfl
  | false => exact closeClient_worksOn h .control

/-- Reading for a client works on this one only. -/
theorem onClientReadable_worksOn (h : ∀ conn, s.clients.find? fd = some conn →
      conn.object = object) (clock : Nat → UInt64) (incoming : Incoming) (modified : Bool) :
    WorksOn fd object s (s.onClientReadable fd clock incoming modified) := by
  cases hfind : s.clients.find? fd with
  | none =>
    rw [onClientReadable_of_none hfind]
    exact .refl h
  | some conn =>
    obtain rfl := h conn hfind
    rw [onClientReadable_of_some hfind rfl]
    have hupdate (result : Bool × Session) :
        WorksOn fd conn.object s (s.update fd conn (conn.resume result.2) result.2.store) :=
      update_worksOn (conn.resume result.2) rfl result.2.store
    split_ifs
    · exact (hupdate _).trans (setInterest_worksOn (hupdate _).same _ _)
    · exact hupdate _
    · exact (hupdate _).trans (closeClient_worksOn (hupdate _).same _)

/-- Writing to a client works on this one only. -/
theorem onClientWritable_worksOn (h : ∀ conn, s.clients.find? fd = some conn →
      conn.object = object) (outgoing : Outgoing) (modified : Bool) :
    WorksOn fd object s (s.onClientWritable fd outgoing modified) := by
  cases hfind : s.clients.find? fd with
  | none =>
    rw [onClientWritable_of_none hfind]
    exact .refl h
  | some conn =>
    obtain rfl := h conn hfind
    rw [onClientWritable_of_some hfind rfl]
    have hupdate (flushed : Flushed) :
        WorksOn fd conn.object s (s.update fd conn (conn.flushed flushed) s.store) :=
      update_worksOn (conn.flushed flushed) rfl s.store
    split_ifs
    · exact (hupdate _).trans (setInterest_worksOn (hupdate _).same _ _)
    · exact hupdate _
    · exact (hupdate _).trans (closeClient_worksOn (hupdate _).same _)

/-- The callback of a client works on this one only, whatever the events are. -/
theorem onClientEvents_worksOn (h : ∀ conn, s.clients.find? fd = some conn →
      conn.object = object) (events : Events) (o : Outcomes) :
    WorksOn fd object s (s.onClientEvents fd events o) := by
  have hread : WorksOn fd object s (s.readIfReady fd events o) := by
    rw [readIfReady]
    split_ifs
    · exact onClientReadable_worksOn h _ _ _
    · exact .refl h
  rw [onClientEvents_eq]
  split_ifs
  · exact closeClient_worksOn h _
  · refine hread.trans ?_
    rw [writeIfReady]
    split_ifs
    · exact onClientWritable_worksOn hread.same _ _
    · exact .refl hread.same

/-! ## What the other callbacks leave alone -/

/-- From `s` to `s'` nothing changed under the descriptors that `s` holds. -/
structure LeavesOpen (s s' : Server) : Prop where
  listenFd : s'.listenFd = s.listenFd
  signalFd : s'.signalFd = s.signalFd
  clients : ∀ fd, s.IsOpen fd → s'.clients.find? fd = s.clients.find? fd
  callbacks : ∀ fd, s.IsOpen fd → s'.loop.callbacks.find? fd = s.loop.callbacks.find? fd

namespace LeavesOpen

/-- What is open stays open if nothing happens. -/
theorem refl (s : Server) : LeavesOpen s s :=
  ⟨rfl, rfl, fun _ _ => rfl, fun _ _ => rfl⟩

/-- What is open here is open there. -/
theorem isOpen (h : LeavesOpen s s') (hopen : s.IsOpen fd) : s'.IsOpen fd := by
  rw [IsOpen, h.clients fd hopen, h.listenFd, h.signalFd]
  exact hopen

/-- What two steps leave open, both together do. -/
theorem trans (h : LeavesOpen s s') (h' : LeavesOpen s' s'') : LeavesOpen s s'' := by
  constructor
  · exact h'.listenFd.trans h.listenFd
  · exact h'.signalFd.trans h.signalFd
  · exact fun fd hopen => (h'.clients fd (h.isOpen hopen)).trans (h.clients fd hopen)
  · exact fun fd hopen => (h'.callbacks fd (h.isOpen hopen)).trans (h.callbacks fd hopen)

end LeavesOpen

/-- A new client does not take the descriptor of an old one. -/
theorem acceptClient_leavesOpen (hfresh : ¬ s.IsOpen fd) (added : Bool) :
    LeavesOpen s (s.acceptClient fd added) := by
  have hne {fd' : Fd} (hopen : s.IsOpen fd') : fd ≠ fd' := by
    rintro rfl
    exact hfresh hopen
  -- a client the loop refuses is closed again at once, under its own number
  cases added with
  | true =>
    constructor
    · rfl
    · rfl
    · intro fd' hopen
      show (s.clients.insert fd _).find? fd' = _
      rw [FlatMap.find?_insert, if_neg (hne hopen)]
    · intro fd' hopen
      show (s.loop.add fd _ _ true).callbacks.find? fd' = _
      rw [EventLoop.find?_add, if_neg (hne hopen)]
  | false =>
    have hclosed : ∀ s' : Server, s'.clients.find? fd = some { object := s.record.objects } →
        (s'.closeClient .control fd).loop = s'.loop.remove fd := by
      intro s' hfind
      rw [closeClient, hfind]
    rw [acceptClient]
    constructor
    · exact closeClient_listenFd _ _ _
    · exact closeClient_signalFd _ _ _
    · intro fd' hopen
      show (closeClient .control fd _).clients.find? fd' = _
      rw [find?_closeClient, if_neg (hne hopen)]
      show (s.clients.insert fd _).find? fd' = _
      rw [FlatMap.find?_insert, if_neg (hne hopen)]
    · intro fd' hopen
      show (closeClient .control fd _).loop.callbacks.find? fd' = _
      rw [hclosed _ (FlatMap.find?_insert_self _ _ _)]
      show (s.loop.remove fd).callbacks.find? fd' = _
      rw [EventLoop.find?_remove, if_neg (hne hopen)]

/-- Accepting leaves everything open, by induction on the results of `accept4`. -/
theorem onNewConnection_leavesOpen (accepting : Accepting) :
    ∀ {s : Server}, FreshFds accepting s → LeavesOpen s (s.onNewConnection accepting) := by
  induction accepting with
  | failed => exact fun _ => .refl _
  | connection fd added next ih =>
    intro s hfresh
    rw [onNewConnection]
    split_ifs
    · exact (acceptClient_leavesOpen hfresh.1 added).trans (ih hfresh.2)
    · exact .refl s

/-- After a shutdown there is no listener. -/
theorem shutdown_listenFd (s : Server) : s.shutdown.listenFd = none := by
  obtain ⟨-, -, -, hlisten, -⟩ := s.clientsClosed.closeServer_fields
  rw [shutdown_eq]
  exact hlisten

/-- Signals change nothing, unless one of them shuts the server down. -/
theorem onSignal_cases (signals : SignalReads) (s : Server) :
    s.onSignal signals = s ∨ (s.onSignal signals).listenFd = none := by
  induction signals with
  | done => exact .inl rfl
  | signal terminates next ih =>
    rw [onSignal]
    split_ifs
    · exact .inr s.shutdown_listenFd
    · exact ih
    · exact .inl rfl

/-! ## The events still to come -/

/-- Throughout the batch, new descriptors are fresh. -/
def AdmitsAll : List Ready → Server → Prop
  | [], _ => True
  | r :: rest, s => s.Admits r ∧ AdmitsAll rest (s.deliver r)

/-- The rest of a batch that was fetched at `s₀`, when the server is at `s`: unless it
has been shut down, what is registered for an event still to come is what was
registered when the batch was fetched, for the same client. -/
structure Pending (s₀ : Server) (rest : List Ready) (s : Server) : Prop where
  consistent : s.Consistent none
  admits : AdmitsAll rest s
  nodup : (rest.map Ready.fd).Nodup
  registered : ∀ r ∈ rest, (s₀.loop.callbacks.find? r.fd).isSome
  kept : s.listenFd = none ∨ ∀ r ∈ rest, s.clients.find? r.fd = s₀.clients.find? r.fd ∧
    s.loop.callbacks.find? r.fd = s₀.loop.callbacks.find? r.fd

/-- **One event of a batch**: those that are still to come reach the clients that they were
reported for, or nobody. -/
theorem deliver_pending {s₀ : Server} {r : Ready} {rest : List Ready}
    (h : Pending s₀ (r :: rest) s) : Pending s₀ rest (s.deliver r) := by
  have hadmits := h.admits
  have hnodup := h.nodup
  rw [List.map_cons, List.nodup_cons] at hnodup
  refine ⟨deliver_consistent h.consistent hadmits.1, hadmits.2, hnodup.2,
    fun r' hr' => h.registered r' (List.mem_cons_of_mem _ hr'), ?_⟩
  rcases h.kept with hclosed | hkept
  · rw [deliver_of_none (h.consistent.find?_of_closed hclosed _)]
    exact .inl hclosed
  obtain ⟨-, hcallbacks⟩ := hkept r List.mem_cons_self
  obtain ⟨registration, hregistration⟩ :=
    Option.isSome_iff_exists.mp (h.registered r List.mem_cons_self)
  rw [hregistration] at hcallbacks
  rw [deliver_of_some hcallbacks]
  have hrest : ∀ r' ∈ rest, s.clients.find? r'.fd = s₀.clients.find? r'.fd ∧
      s.loop.callbacks.find? r'.fd = s₀.loop.callbacks.find? r'.fd :=
    fun r' hr' => hkept r' (List.mem_cons_of_mem _ hr')
  cases hcallback : registration.callback with
  | listener =>
    rw [invoke]
    split_ifs
    · exact .inl s.shutdown_listenFd
    · -- what is registered is open, so `accept4` does not return it
      have hleaves := onNewConnection_leavesOpen r.outcomes.accepting hadmits.1
      refine .inr fun r' hr' => ?_
      obtain ⟨hclients', hcallbacks'⟩ := hrest r' hr'
      have hopen : s.IsOpen r'.fd := h.consistent.only r'.fd <| by
        rw [hcallbacks']
        exact h.registered r' (List.mem_cons_of_mem _ hr')
      exact ⟨(hleaves.clients _ hopen).trans hclients',
        (hleaves.callbacks _ hopen).trans hcallbacks'⟩
  | signals =>
    rw [invoke]
    split_ifs
    · exact .inl s.shutdown_listenFd
    · rcases onSignal_cases r.outcomes.signals s with hsame | hclosed
      · rw [hsame]
        exact .inr hrest
      · exact .inl hclosed
  | client fd =>
    obtain ⟨rfl, conn, hconn⟩ := h.consistent.find?_of_callback hcallbacks hcallback
    have hobject : ∀ conn', s.clients.find? r.fd = some conn' → conn'.object = conn.object :=
      fun conn' hconn' => by rw [Option.some.inj (hconn.symm.trans hconn')]
    have hworks := onClientEvents_worksOn hobject r.events r.outcomes
    -- no later event of the batch is for this descriptor
    refine .inr fun r' hr' => ?_
    have hne : r'.fd ≠ r.fd := fun heq => hnodup.1 (heq ▸ List.mem_map_of_mem hr')
    obtain ⟨hclients', hcallbacks'⟩ := hrest r' hr'
    exact ⟨(hworks.clients _ hne).trans hclients', (hworks.callbacks _ hne).trans hcallbacks'⟩

/-- **Events reach their client.** Let a batch of events be fetched, at most one for
each registered descriptor. If, when the turn of an event comes, a client's callback is
found under its descriptor, then the client is in the state it was in when the batch was
fetched, and the callback works on no other object. -/
theorem events_reach_their_client {s₀ : Server} (h : Reachable s₀) {before after : List Ready}
    {r : Ready} (hadmits : AdmitsAll (before ++ r :: after) s₀)
    (hnodup : ((before ++ r :: after).map Ready.fd).Nodup)
    (hregistered : ∀ r' ∈ before ++ r :: after, (s₀.loop.callbacks.find? r'.fd).isSome)
    {registration : Registration Callback}
    (hfind : (s₀.runOnce before).loop.callbacks.find? r.fd = some registration) {fd : Fd}
    (hcallback : registration.callback = .client fd) :
    fd = r.fd ∧ ∃ conn, s₀.clients.find? fd = some conn ∧
      conn.object < s₀.record.objects ∧
      (s₀.runOnce before).clients.find? fd = some conn ∧
      ∃ acts, (s₀.runOnce (before ++ [r])).record.touched =
          (s₀.runOnce before).record.touched ++ acts ∧
        ∀ act ∈ acts, act = (fd, conn.object) := by
  have hpending : Pending s₀ (r :: after) (s₀.runOnce before) :=
    runBatch_induction (I := Pending s₀) (fun _ _ _ => deliver_pending) before
      ⟨h.consistent, hadmits, hnodup, hregistered, .inr fun _ _ => ⟨rfl, rfl⟩⟩
  obtain ⟨rfl, conn, hconn⟩ := hpending.consistent.find?_of_callback hfind hcallback
  -- a callback was found, so the server has not closed and `r` is as it was before the batch
  have hkept := hpending.kept.resolve_left fun hclosed => by
    rw [hpending.consistent.find?_of_closed hclosed] at hfind
    cases hfind
  have hconn₀ : s₀.clients.find? r.fd = some conn := by
    rw [← (hkept r List.mem_cons_self).1, hconn]
  refine ⟨rfl, conn, hconn₀, h.consistent.made _ _ hconn₀, hconn, ?_⟩
  have hobject : ∀ conn', (s₀.runOnce before).clients.find? r.fd = some conn' →
      conn'.object = conn.object :=
    fun conn' hconn' => by rw [Option.some.inj (hconn.symm.trans hconn')]
  have hworks := onClientEvents_worksOn hobject r.events r.outcomes
  rw [show s₀.runOnce (before ++ [r]) = (s₀.runOnce before).deliver r from
    runBatch_append before [r] s₀, deliver_of_some hfind, hcallback]
  exact hworks.touched

/-- One client hangs up and its descriptor is taken by a new one, in the batch that has
an event for another client. -/
theorem events_reach_their_client_reused :
    let s₀ := (started .empty {} 3 4).deliver
      { fd := 4, events := { input := true },
        outcomes := { accepting := .connection 7 true (.connection 8 true .failed) } }
    let before : List Ready :=
      [{ fd := 7, events := { hangup := true } },
       { fd := 4, events := { input := true },
         outcomes := { accepting := .connection 7 true .failed } }]
    let r : Ready := { fd := 8, events := { input := true } }
    ((s₀.runOnce before).clients.find? 7).map Connection.object = some 2 ∧
    ∃ conn, s₀.clients.find? 8 = some conn ∧ conn.object < 2 ∧
      (s₀.runOnce before).clients.find? 8 = some conn ∧
      ∃ acts, (s₀.runOnce (before ++ [r])).record.touched =
          (s₀.runOnce before).record.touched ++ acts ∧
        ∀ act ∈ acts, act = (8, conn.object) := by
  intro s₀ before r
  have h : Reachable s₀ :=
    .deliver _ ⟨by decide, by decide, trivial⟩ (reachable_started (by decide) .empty {})
  have hfind : (s₀.runOnce before).loop.callbacks.find? 8 =
      some ⟨{ input := true }, .client 8⟩ := rfl
  have hregistered : ∀ r' ∈ before ++ [r], (s₀.loop.callbacks.find? r'.fd).isSome := by
    decide
  have hadmits : AdmitsAll (before ++ [r]) s₀ := by
    refine ⟨trivial, ⟨by decide, trivial⟩, trivial, trivial⟩
  have hclient := events_reach_their_client h hadmits (by decide) hregistered hfind rfl
  exact ⟨rfl, hclient.2⟩

end Server

end Redix
