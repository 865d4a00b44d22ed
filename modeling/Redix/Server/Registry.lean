import Redix.Server.Server

/-!
# The registry of clients

Three structures know the clients of a server: the map of clients, the map of
callbacks, and the counter. They are updated separately, in several orders, with
error paths between; a client whose registration is in the middle of a change is
`loose`, and the invariant says nothing of its callback.

- `Consistent`: the invariant, but for a loose client. Each operation is a lemma:
  an update loosens a client (`insert_consistent`), and a registration
  (`register_consistent`) or its removal (`closeClient_consistent`) settles it;
- `Reachable.consistent`: it holds between callbacks, with no client loose;
- `no_stalled_reply`, `registry_consistent`: what this says of interest sets, and
  of the counter and the callbacks.
-/

namespace Redix

namespace Server

variable {s : Server} {fd : Fd}

/-! ## The invariant -/

/-- The client is registered for its own callback: for input always, and for output
exactly while it writes. -/
def Registered (s : Server) (fd : Fd) (conn : Connection) : Prop :=
  ∃ events, s.loop.callbacks.find? fd = some ⟨events, .client fd⟩ ∧ events.input = true ∧
    (events.output = true ↔ conn.client.state = .writing)

/-- The registry is consistent, but for the registration of a `loose` client. -/
structure Consistent (loose : Option Fd) (s : Server) : Prop where
  counted : s.connectedClients = s.clients.size
  unsuppressed : s.record.suppressed = 0
  /-- Each client has its callback. -/
  client : ∀ fd conn, s.clients.find? fd = some conn → loose ≠ some fd → s.Registered fd conn
  /-- So have the two descriptors of the server, which are no clients. -/
  listener : ∀ fd, s.listenFd = some fd → s.clients.find? fd = none ∧
    ∃ events, s.loop.callbacks.find? fd = some ⟨events, .listener⟩
  signals : ∀ fd, s.signalFd = some fd → s.clients.find? fd = none ∧
    ∃ events, s.loop.callbacks.find? fd = some ⟨events, .signals⟩
  /-- There are no other callbacks. -/
  only : ∀ fd, (s.loop.callbacks.find? fd).isSome → s.IsOpen fd
  /-- Clients come from a listener only, and the listener goes last. -/
  closed : s.listenFd = none → s.signalFd = none ∧ ∀ fd, s.clients.find? fd = none
  /-- The objects in the map have been made. -/
  made : ∀ fd conn, s.clients.find? fd = some conn → conn.object < s.record.objects

/-- The invariant with no client loose looks after a loose one, too. -/
theorem Consistent.loosen (h : s.Consistent none) (loose : Option Fd) : s.Consistent loose :=
  { h with client := fun fd conn hfind _ => h.client fd conn hfind nofun }

/-- A loose client that is not there. -/
theorem Consistent.settle (h : s.Consistent (some fd)) (hnone : s.clients.find? fd = none) :
    s.Consistent none := by
  refine { h with client := fun fd' conn hfind _ => h.client fd' conn hfind ?_ }
  rintro ⟨⟩
  rw [hnone] at hfind
  cases hfind

/-! ### What follows at once -/

/-- A server that has been shut down has no callbacks. -/
theorem Consistent.find?_of_closed (h : s.Consistent none) (hclosed : s.listenFd = none)
    (fd : Fd) : s.loop.callbacks.find? fd = none := by
  obtain ⟨hsignal, hnone⟩ := h.closed hclosed
  by_contra hcallback
  rcases h.only fd (Option.isSome_iff_ne_none.mpr hcallback) with hclient | hlisten | hsignal'
  · rw [hnone fd] at hclient
    cases hclient
  · rw [hclosed] at hlisten
    cases hlisten
  · rw [hsignal] at hsignal'
    cases hsignal'

/-- A client's callback is registered under its own descriptor, and the client exists. -/
theorem Consistent.find?_of_callback (h : s.Consistent none) {fd' : Fd}
    {registration : Registration Callback}
    (hfind : s.loop.callbacks.find? fd = some registration)
    (hcallback : registration.callback = .client fd') :
    fd' = fd ∧ ∃ conn, s.clients.find? fd = some conn := by
  -- a descriptor has one callback, so this one is not the listener or the signals
  have hother {callback : Callback} (hne : callback ≠ .client fd')
      (hevents : ∃ events, s.loop.callbacks.find? fd = some ⟨events, callback⟩) : False := by
    obtain ⟨events, hevents⟩ := hevents
    obtain rfl := Option.some.inj (hfind.symm.trans hevents)
    exact hne hcallback
  rcases h.only fd (by rw [hfind]; rfl) with hclient | hlisten | hsignal
  · obtain ⟨conn, hconn⟩ := Option.isSome_iff_exists.mp hclient
    obtain ⟨events, hevents, -⟩ := h.client fd conn hconn nofun
    obtain rfl := Option.some.inj (hfind.symm.trans hevents)
    exact ⟨(Callback.client.inj hcallback).symm, conn, hconn⟩
  · exact (hother (by rintro ⟨⟩) (h.listener fd hlisten).2).elim
  · exact (hother (by rintro ⟨⟩) (h.signals fd hsignal).2).elim

/-- A client's descriptor is none of the server's, and the server is not shut down. -/
theorem Consistent.of_find? {loose : Option Fd} (h : s.Consistent loose) {conn : Connection}
    (hfind : s.clients.find? fd = some conn) :
    s.listenFd.isSome ∧ s.listenFd ≠ some fd ∧ s.signalFd ≠ some fd := by
  refine ⟨?_, fun hlisten => ?_, fun hsignal => ?_⟩
  · cases hlisten : s.listenFd with
    | none =>
      rw [(h.closed hlisten).2 fd] at hfind
      cases hfind
    | some fd' => rfl
  · rw [(h.listener fd hlisten).1] at hfind
    cases hfind
  · rw [(h.signals fd hsignal).1] at hfind
    cases hfind

/-! ### A change at one descriptor -/

/-- A change at one descriptor, which is none of the server's, leaves the rest of the
registry consistent. -/
theorem Consistent.change (h : s.Consistent (some fd)) {s' : Server}
    (hother : s.listenFd.isSome ∧ s.listenFd ≠ some fd ∧ s.signalFd ≠ some fd)
    (hlistenFd : s'.listenFd = s.listenFd) (hsignalFd : s'.signalFd = s.signalFd)
    (hclients : ∀ fd', fd ≠ fd' → s'.clients.find? fd' = s.clients.find? fd')
    (hcallbacks : ∀ fd', fd ≠ fd' →
      s'.loop.callbacks.find? fd' = s.loop.callbacks.find? fd')
    (hcounted : s'.connectedClients = s'.clients.size)
    (hunsuppressed : s'.record.suppressed = 0)
    (honly : (s'.loop.callbacks.find? fd).isSome → (s'.clients.find? fd).isSome)
    (hobjects : s.record.objects ≤ s'.record.objects)
    (hmade : ∀ conn, s'.clients.find? fd = some conn → conn.object < s'.record.objects) :
    s'.Consistent (some fd) := by
  obtain ⟨hopen, hlisten, hsignal⟩ := hother
  constructor
  · exact hcounted
  · exact hunsuppressed
  · -- only `fd` may be loose
    intro fd' conn hfind hloose
    have hfd : fd ≠ fd' := fun heq => hloose (congrArg some heq)
    rw [hclients fd' hfd] at hfind
    obtain ⟨events, hevents, hrest⟩ := h.client fd' conn hfind hloose
    exact ⟨events, (hcallbacks fd' hfd).trans hevents, hrest⟩
  · intro fd' hlisten'
    rw [hlistenFd] at hlisten'
    have hfd : fd ≠ fd' := fun heq => hlisten (heq ▸ hlisten')
    obtain ⟨hnone, events, hevents⟩ := h.listener fd' hlisten'
    exact ⟨(hclients fd' hfd).trans hnone, events, (hcallbacks fd' hfd).trans hevents⟩
  · intro fd' hsignal'
    rw [hsignalFd] at hsignal'
    have hfd : fd ≠ fd' := fun heq => hsignal (heq ▸ hsignal')
    obtain ⟨hnone, events, hevents⟩ := h.signals fd' hsignal'
    exact ⟨(hclients fd' hfd).trans hnone, events, (hcallbacks fd' hfd).trans hevents⟩
  · intro fd' hcallback
    by_cases hfd : fd = fd'
    · subst hfd
      exact .inl (honly hcallback)
    · rw [hcallbacks fd' hfd] at hcallback
      rw [IsOpen, hclients fd' hfd, hlistenFd, hsignalFd]
      exact h.only fd' hcallback
  · -- the server is not shut down
    intro hclosed
    rw [← hlistenFd, hclosed] at hopen
    cases hopen
  · intro fd' conn hfind
    by_cases hfd : fd = fd'
    · subst hfd
      exact hmade conn hfind
    · rw [hclients fd' hfd] at hfind
      exact Nat.lt_of_lt_of_le (h.made fd' conn hfind) hobjects

/-! ## Closing a client -/

/-- A client that is closed is gone from the map, and no other. -/
theorem find?_closeClient (s : Server) (cause : Cause) (fd fd' : Fd) :
    (s.closeClient cause fd).clients.find? fd' =
      if fd = fd' then none else s.clients.find? fd' := by
  cases h : s.clients.find? fd with
  | none =>
    rw [closeClient_of_none h]
    by_cases hfd : fd = fd'
    · rw [if_pos hfd, ← hfd, h]
    · rw [if_neg hfd]
  | some conn =>
    rw [closeClient, h]
    exact FlatMap.find?_erase _ _ _

/-- Closing a client leaves the listener as it is. -/
theorem closeClient_listenFd (s : Server) (cause : Cause) (fd : Fd) :
    (s.closeClient cause fd).listenFd = s.listenFd := by
  rw [closeClient]
  cases s.clients.find? fd <;> rfl

/-- Closing a client leaves the descriptor for signals as it is. -/
theorem closeClient_signalFd (s : Server) (cause : Cause) (fd : Fd) :
    (s.closeClient cause fd).signalFd = s.signalFd := by
  rw [closeClient]
  cases s.clients.find? fd <;> rfl

/-- Closing a client settles it. -/
theorem closeClient_consistent (h : s.Consistent (some fd)) (cause : Cause) :
    (s.closeClient cause fd).Consistent none := by
  cases hfind : s.clients.find? fd with
  | none =>
    rw [closeClient_of_none hfind]
    exact h.settle hfind
  | some conn =>
    have hsize : (s.clients.erase fd).size + 1 = s.connectedClients := by
      rw [h.counted]
      exact FlatMap.size_erase hfind
    have hpos : s.connectedClients > 0 := by omega
    have hgone : (s.clients.erase fd).find? fd = none := by
      rw [FlatMap.find?_erase, if_pos rfl]
    rw [closeClient, hfind]
    refine Consistent.settle ?_ hgone
    refine h.change (h.of_find? hfind) rfl rfl ?_ ?_ ?_ ?_ ?_ (Nat.le_refl _) ?_
    · intro fd' hne
      show (s.clients.erase fd).find? fd' = _
      rw [FlatMap.find?_erase, if_neg hne]
    · intro fd' hne
      show (s.loop.remove fd).callbacks.find? fd' = _
      rw [EventLoop.find?_remove, if_neg hne]
    · show (if s.connectedClients > 0 then s.connectedClients - 1 else _) = _
      rw [if_pos hpos]
      show s.connectedClients - 1 = (s.clients.erase fd).size
      omega
    · -- the client itself is counted, so the guard lets the decrement through
      show (if _ then s.record.suppressed else s.record.suppressed + 1) = 0
      rw [if_pos (decide_eq_true hpos)]
      exact h.unsuppressed
    · intro hcallback
      have hcallback : ((s.loop.remove fd).callbacks.find? fd).isSome := hcallback
      rw [EventLoop.find?_remove, if_pos rfl] at hcallback
      cases hcallback
    · intro conn' hfind'
      have hfind' : (s.clients.erase fd).find? fd = some conn' := hfind'
      rw [hgone] at hfind'
      cases hfind'

/-! ## Registering a client -/

/-- A loose client that turns out to be registered. -/
theorem Consistent.tighten (h : s.Consistent (some fd))
    (hregistered : ∀ conn, s.clients.find? fd = some conn → s.Registered fd conn) :
    s.Consistent none := by
  refine { h with client := fun fd' conn hfind _ => ?_ }
  by_cases hfd : fd = fd'
  · subst hfd
    exact hregistered conn hfind
  · exact h.client fd' conn hfind fun heq => hfd (Option.some.inj heq)

/-- Registering a client settles it. -/
theorem register_consistent (h : s.Consistent (some fd)) {conn : Connection}
    (hfind : s.clients.find? fd = some conn) {events : Events} (hinput : events.input = true)
    (houtput : events.output = true ↔ conn.client.state = .writing) :
    ({ s with loop := s.loop.modify fd events (.client fd) true } : Server).Consistent none := by
  have hloose : ({ s with loop := s.loop.modify fd events (.client fd) true } :
      Server).Consistent (some fd) := by
    refine h.change (h.of_find? hfind) rfl rfl (fun _ _ => rfl) ?_ h.counted h.unsuppressed
      ?_ (Nat.le_refl _) (h.made fd)
    · intro fd' hne
      rw [EventLoop.find?_modify, if_neg hne]
    · intro _
      rw [hfind]
      rfl
  -- with its callback in place the client is exempt no more
  refine hloose.tighten fun conn' hfind' => ?_
  obtain rfl : conn = conn' := Option.some.inj (hfind.symm.trans hfind')
  exact ⟨events, by rw [EventLoop.find?_modify, if_pos rfl], hinput, houtput⟩

/-! ## Changing the map of clients -/

/-- A client that is put into the map, in place of an earlier state of its own or under
a fresh descriptor, is loose. -/
theorem insert_consistent (h : s.Consistent none) (hopen : s.listenFd.isSome)
    (hlisten : s.listenFd ≠ some fd) (hsignal : s.signalFd ≠ some fd) {conn : Connection}
    {store : Store} {counter : Nat} {record : Record}
    (hcounted : counter = (s.clients.insert fd conn).size)
    (hsuppressed : record.suppressed = s.record.suppressed)
    (hobjects : s.record.objects ≤ record.objects) (hmade : conn.object < record.objects) :
    ({ s with
      store
      clients := s.clients.insert fd conn
      connectedClients := counter
      record } : Server).Consistent (some fd) := by
  -- the new client is exempt until its callback is there
  refine (h.loosen (some fd)).change ⟨hopen, hlisten, hsignal⟩ rfl rfl ?_ (fun _ _ => rfl)
    hcounted (hsuppressed.trans h.unsuppressed) ?_ hobjects ?_
  · intro fd' hne
    rw [FlatMap.find?_insert, if_neg hne]
  · intro _
    rw [FlatMap.find?_insert_self]
    rfl
  · intro conn' hfind
    rw [FlatMap.find?_insert_self] at hfind
    cases hfind
    exact hmade

/-- Work on a client loosens it. -/
theorem update_consistent (h : s.Consistent none) {conn : Connection} (conn' : Connection)
    (hfind : s.clients.find? fd = some conn) (hobject : conn'.object = conn.object)
    (store : Store) : (s.update fd conn conn' store).Consistent (some fd) := by
  obtain ⟨hopen, hlisten, hsignal⟩ := h.of_find? hfind
  refine insert_consistent h hopen hlisten hsignal ?_ rfl (Nat.le_refl _) ?_
  · rw [FlatMap.size_insert_old hfind, h.counted]
  · rw [hobject]
    exact h.made fd conn hfind

/-- Work that leaves a client's state as it was does not loosen it. -/
theorem update_same_consistent (h : s.Consistent none) {conn : Connection} (conn' : Connection)
    (hfind : s.clients.find? fd = some conn) (hobject : conn'.object = conn.object)
    (hstate : conn'.client.state = .writing ↔ conn.client.state = .writing) (store : Store) :
    (s.update fd conn conn' store).Consistent none := by
  refine (update_consistent h conn' hfind hobject store).tighten fun conn₁ hfind₁ => ?_
  obtain rfl : conn' = conn₁ := FlatMap.eq_of_find?_insert hfind₁
  obtain ⟨events, hevents, hinput, houtput⟩ := h.client fd conn hfind nofun
  exact ⟨events, hevents, hinput, houtput.trans hstate.symm⟩

/-- Changing the interest set of a client settles it. -/
theorem setInterest_consistent (h : s.Consistent (some fd)) {conn : Connection}
    (hfind : s.clients.find? fd = some conn) {events : Events} (hinput : events.input = true)
    (houtput : events.output = true ↔ conn.client.state = .writing) (modified : Bool) :
    (s.setInterest fd events modified).Consistent none := by
  cases modified with
  | true => exact register_consistent h hfind hinput houtput
  | false => exact closeClient_consistent h .control

/-! ## Callbacks of a client -/

/-- Reading for a client keeps the registry in order: if it now has something to send, it is
registered for output as well. -/
theorem onClientReadable_consistent (h : s.Consistent none) (fd : Fd) (clock : Nat → UInt64)
    (incoming : Incoming) (modified : Bool) :
    (s.onClientReadable fd clock incoming modified).Consistent none := by
  cases hfind : s.clients.find? fd with
  | none => rwa [onClientReadable_of_none hfind]
  | some conn =>
    have hstate := @Session.onReadable_state clock s.aof incoming (conn.session s.store)
    generalize hresult : (conn.session s.store).onReadable clock s.aof incoming = result
      at hstate
    rw [onClientReadable_of_some hfind hresult]
    have hloose := update_consistent h (conn.resume result.2) hfind rfl result.2.store
    split_ifs with hstays hwriting
    · exact setInterest_consistent hloose (FlatMap.find?_insert_self _ _ _) rfl
        (iff_of_true rfl hwriting) modified
    · -- nothing was served, so the client was not writing before
      refine update_same_consistent h (conn.resume result.2) hfind rfl
        (iff_of_false hwriting fun hbefore => ?_) _
      rw [hstate] at hwriting
      split_ifs at hwriting
      · exact hwriting hbefore
      · exact hwriting rfl
    · exact closeClient_consistent hloose _

/-- Writing to a client: if nothing is left to send, it is no longer registered for output. -/
theorem onClientWritable_consistent (h : s.Consistent none) (fd : Fd) (outgoing : Outgoing)
    (modified : Bool) : (s.onClientWritable fd outgoing modified).Consistent none := by
  cases hfind : s.clients.find? fd with
  | none => rwa [onClientWritable_of_none hfind]
  | some conn =>
    have hstate := Client.onWritable_state conn.client outgoing
    generalize hflushed : conn.client.onWritable outgoing = flushed at hstate
    rw [onClientWritable_of_some hfind hflushed]
    have hloose := update_consistent h (conn.flushed flushed) hfind rfl s.store
    split_ifs with hstays hreading
    · refine setInterest_consistent hloose (FlatMap.find?_insert_self _ _ _) rfl ?_ modified
      refine iff_of_false (fun houtput => by cases houtput) fun hwriting => ?_
      have hwriting : flushed.client.state = .writing := hwriting
      rw [hreading] at hwriting
      cases hwriting
    · -- not everything was sent, so the client goes on writing
      have hsame : flushed.client.state = conn.client.state := hstate.resolve_left hreading
      refine update_same_consistent h (conn.flushed flushed) hfind rfl ?_ _
      rw [← hsame]
      rfl
    · exact closeClient_consistent hloose _

/-! ## Accepting a client -/

/-- A descriptor that is not open has no client. -/
theorem find?_of_fresh (hfresh : ¬ s.IsOpen fd) : s.clients.find? fd = none := by
  cases hfind : s.clients.find? fd with
  | none => rfl
  | some conn => exact absurd (.inl (by rw [hfind]; rfl)) hfresh

/-- A new client is in the map, counted and registered; or none of it if `epoll_ctl` fails. -/
theorem acceptClient_consistent (h : s.Consistent none) (hfresh : ¬ s.IsOpen fd)
    (hopen : s.listenFd.isSome) (added : Bool) : (s.acceptClient fd added).Consistent none := by
  -- the client is in the map, but not registered yet
  have hloose : ({ s with
      clients := s.clients.insert fd { object := s.record.objects }
      connectedClients := s.connectedClients + 1
      record := { s.record with objects := s.record.objects + 1 } } :
      Server).Consistent (some fd) := by
    refine insert_consistent h hopen (fun hlisten => hfresh (.inr (.inl hlisten)))
      (fun hsignal => hfresh (.inr (.inr hsignal))) ?_ rfl (Nat.le_succ _) (Nat.lt_succ_self _)
    rw [FlatMap.size_insert_new (find?_of_fresh hfresh), h.counted]
  refine setInterest_consistent hloose (FlatMap.find?_insert_self _ _ _) rfl ?_ added
  exact iff_of_false (fun houtput => by cases houtput) fun hwriting => by cases hwriting

/-! ## Shutting down -/

/-- After closing all in a list, these are gone. -/
theorem find?_closeAll (cause : Cause) (fds : List Fd) (fd : Fd) :
    ∀ s : Server, (fds.foldl (fun s fd => s.closeClient cause fd) s).clients.find? fd =
      if fd ∈ fds then none else s.clients.find? fd := by
  induction fds with
  | nil => exact fun s => (if_neg List.not_mem_nil).symm
  | cons first rest ih =>
    intro s
    rw [List.foldl_cons, ih, find?_closeClient]
    -- closed later, closed now, or not at all
    by_cases hrest : fd ∈ rest
    · rw [if_pos hrest, if_pos (List.mem_cons_of_mem _ hrest)]
    · by_cases hfirst : first = fd
      · rw [if_neg hrest, if_pos hfirst, if_pos (hfirst ▸ List.mem_cons_self)]
      · have hnot : fd ∉ first :: rest := fun hmem =>
          (List.mem_cons.mp hmem).elim (fun heq => hfirst heq.symm) hrest
        rw [if_neg hrest, if_neg hfirst, if_neg hnot]

/-- Closing all in a list, by induction on it. -/
theorem closeAll_consistent (cause : Cause) (fds : List Fd) :
    ∀ {s : Server}, s.Consistent none →
      (fds.foldl (fun s fd => s.closeClient cause fd) s).Consistent none := by
  induction fds with
  | nil => exact fun h => h
  | cons fd rest ih => exact fun h => ih (closeClient_consistent (h.loosen _) cause)

/-- Closing the server's own descriptors takes their callbacks away. -/
theorem find?_closeServer (s : Server) (fd : Fd) :
    s.closeListener.closeSignals.loop.callbacks.find? fd =
      if s.listenFd = some fd ∨ s.signalFd = some fd then none
      else s.loop.callbacks.find? fd := by
  have hlistener : s.closeListener.loop.callbacks.find? fd =
      if s.listenFd = some fd then none else s.loop.callbacks.find? fd := by
    rw [closeListener]
    cases hlisten : s.listenFd with
    | none => rw [if_neg nofun]
    | some fd' =>
      show (s.loop.remove fd').callbacks.find? fd = _
      rw [EventLoop.find?_remove]
      simp only [Option.some.injEq]
  have hsignals : s.closeListener.signalFd = s.signalFd := by
    rw [closeListener]
    cases s.listenFd <;> rfl
  rw [closeSignals, hsignals]
  cases hsignal : s.signalFd with
  | none => simp only [hlistener, reduceCtorEq, or_false]
  | some fd' =>
    show (s.closeListener.loop.remove fd').callbacks.find? fd = _
    rw [EventLoop.find?_remove, hlistener]
    -- closing one leaves the callback of the other, unless they are one
    by_cases hfd : fd' = fd
    · rw [if_pos hfd, if_pos (.inr (congrArg some hfd))]
    · rw [if_neg hfd]
      simp only [Option.some.injEq, hfd, or_false]

/-- Closing the server's own descriptors leaves the clients as they are. -/
theorem closeServer_fields (s : Server) :
    let s' := s.closeListener.closeSignals
    s'.clients = s.clients ∧ s'.connectedClients = s.connectedClients ∧
    s'.record = s.record ∧ s'.listenFd = none ∧ s'.signalFd = none := by
  have hlistener : s.closeListener.clients = s.clients ∧
      s.closeListener.connectedClients = s.connectedClients ∧
      s.closeListener.record = s.record ∧ s.closeListener.listenFd = none := by
    rw [closeListener]
    cases hlisten : s.listenFd with
    | none => exact ⟨rfl, rfl, rfl, hlisten⟩
    | some fd => exact ⟨rfl, rfl, rfl, rfl⟩
  intro s'
  show (closeSignals s.closeListener).clients = _ ∧ (closeSignals s.closeListener).connectedClients
    = _ ∧ (closeSignals s.closeListener).record = _ ∧ (closeSignals s.closeListener).listenFd = _
    ∧ (closeSignals s.closeListener).signalFd = _
  rw [closeSignals]
  cases hsignal : s.closeListener.signalFd with
  | none =>
    obtain ⟨hclients, hcounter, hrecord, hlisten⟩ := hlistener
    exact ⟨hclients, hcounter, hrecord, hlisten, hsignal⟩
  | some fd =>
    obtain ⟨hclients, hcounter, hrecord, hlisten⟩ := hlistener
    exact ⟨hclients, hcounter, hrecord, hlisten, rfl⟩

/-- Without clients, the server's own descriptors can go. -/
theorem closeServer_consistent (h : s.Consistent none)
    (hnone : ∀ fd, s.clients.find? fd = none) :
    s.closeListener.closeSignals.Consistent none := by
  obtain ⟨hclients, hcounter, hrecord, hlisten, hsignal⟩ := s.closeServer_fields
  constructor
  · rw [hcounter, hclients, h.counted]
  · rw [hrecord, h.unsuppressed]
  · intro fd conn hfind _
    rw [hclients, hnone fd] at hfind
    cases hfind
  · intro fd hfd
    rw [hlisten] at hfd
    cases hfd
  · intro fd hfd
    rw [hsignal] at hfd
    cases hfd
  -- a callback left would be of a client, and there is none
  · intro fd hcallback
    rw [find?_closeServer] at hcallback
    split_ifs at hcallback with hserver
    · cases hcallback
    · rcases h.only fd hcallback with hclient | hfd
      · rw [hnone fd] at hclient
        cases hclient
      · exact absurd hfd hserver
  · exact fun _ => ⟨hsignal, fun fd => by rw [hclients, hnone fd]⟩
  · intro fd conn hfind
    rw [hclients, hnone fd] at hfind
    cases hfind

/-- The server when the clients have been closed. -/
def clientsClosed (s : Server) : Server :=
  s.clients.keys.foldl (fun s fd => s.closeClient .shutdown fd) { s with aof := s.aof.close }

/-- There are no clients after `clients_` has been emptied. -/
theorem find?_clientsClosed (s : Server) (fd : Fd) : s.clientsClosed.clients.find? fd = none := by
  rw [clientsClosed, find?_closeAll]
  by_cases hmem : fd ∈ s.clients.keys
  · rw [if_pos hmem]
  · rw [if_neg hmem]
    rwa [FlatMap.mem_keys, Option.isSome_iff_ne_none, not_not] at hmem

/-- The steps of a shutdown: clients first, then the server's own descriptors, then the loop. -/
theorem shutdown_eq (s : Server) :
    s.shutdown = { s.clientsClosed.closeListener.closeSignals with
      loop := s.clientsClosed.closeListener.closeSignals.loop.stop } := rfl

/-- A shutdown leaves an empty registry, which is in order. -/
theorem shutdown_consistent (h : s.Consistent none) : s.shutdown.Consistent none := by
  have haof : ({ s with aof := s.aof.close } : Server).Consistent none :=
    ⟨h.counted, h.unsuppressed, h.client, h.listener, h.signals, h.only, h.closed, h.made⟩
  have hclosed : s.clientsClosed.Consistent none := closeAll_consistent .shutdown _ haof
  have hserver := closeServer_consistent hclosed s.find?_clientsClosed
  exact ⟨hserver.counted, hserver.unsuppressed, hserver.client, hserver.listener,
    hserver.signals, hserver.only, hserver.closed, hserver.made⟩

/-! ## Callbacks -/

/-- Accepting, by induction on the results of `accept4`. -/
theorem onNewConnection_consistent (accepting : Accepting) :
    ∀ {s : Server}, s.Consistent none → FreshFds accepting s →
      (s.onNewConnection accepting).Consistent none := by
  induction accepting with
  | failed => exact fun h _ => h
  | connection fd added next ih =>
    intro s h hfresh
    rw [onNewConnection]
    split_ifs with hopen
    · exact ih (acceptClient_consistent h hfresh.1 hopen added) hfresh.2
    · exact h

/-- Signals, by induction on what is read of them. -/
theorem onSignal_consistent (signals : SignalReads) (h : s.Consistent none) :
    (s.onSignal signals).Consistent none := by
  induction signals with
  | done => exact h
  | signal terminates next ih =>
    rw [onSignal]
    split_ifs
    · exact shutdown_consistent h
    · exact ih
    · exact h

/-- The events of a client: hangup first, then input, then output. -/
theorem onClientEvents_consistent (h : s.Consistent none) (fd : Fd) (events : Events)
    (o : Outcomes) : (s.onClientEvents fd events o).Consistent none := by
  have hread : (s.readIfReady fd events o).Consistent none := by
    rw [readIfReady]
    split_ifs
    · exact onClientReadable_consistent h fd _ _ _
    · exact h
  rw [onClientEvents_eq]
  split_ifs
  · exact closeClient_consistent (h.loosen _) _
  · rw [writeIfReady]
    split_ifs
    · exact onClientWritable_consistent hread fd _ _
    · exact hread

/-- **One step** keeps the invariant. -/
theorem deliver_consistent (h : s.Consistent none) {r : Ready} (hfresh : s.Admits r) :
    (s.deliver r).Consistent none := by
  cases hfind : s.loop.callbacks.find? r.fd with
  | none => rwa [deliver_of_none hfind]
  | some registration =>
    rw [deliver_of_some hfind]
    cases registration.callback with
    | listener =>
      rw [invoke]
      split_ifs
      · exact shutdown_consistent h
      · exact onNewConnection_consistent _ h hfresh
    | signals =>
      rw [invoke]
      split_ifs
      · exact shutdown_consistent h
      · exact onSignal_consistent _ h
    | client fd => exact onClientEvents_consistent h fd _ _

/-! ## Runs -/

/-- A server that has been started. -/
theorem start_consistent {store : Store} {aof : Aof} {o : StartOutcomes}
    (hfresh : o.socket ≠ o.signals) (h : start o { store, aof } = .ok s) :
    s.Consistent none := by
  obtain ⟨signalFd, listenFd, hsignals, hsocket, rfl⟩ := start_ok h
  -- two descriptors open at once have different numbers
  have hne : listenFd ≠ signalFd := by
    rintro rfl
    exact hfresh (hsocket.trans hsignals.symm)
  have hfind (fd : Fd) : (started store aof signalFd listenFd).loop.callbacks.find? fd =
      if listenFd = fd then some ⟨{ input := true }, .listener⟩
      else if signalFd = fd then some ⟨{ input := true }, .signals⟩ else none := by
    show (EventLoop.add _ listenFd _ _ true).callbacks.find? fd = _
    rw [EventLoop.find?_add, EventLoop.find?_add]
    rfl
  constructor
  · rfl
  · rfl
  · intro fd conn hconn _
    cases hconn
  · rintro fd ⟨⟩
    exact ⟨rfl, _, (hfind listenFd).trans (if_pos rfl)⟩
  · rintro fd ⟨⟩
    exact ⟨rfl, _, (hfind signalFd).trans (by rw [if_neg hne, if_pos rfl])⟩
  · intro fd hcallback
    rw [hfind] at hcallback
    split_ifs at hcallback with hlisten hsignal
    · exact .inr (.inl (congrArg some hlisten))
    · exact .inr (.inr (congrArg some hsignal))
    · cases hcallback
  · intro hclosed
    cases hclosed
  · intro fd conn hconn
    cases hconn

/-- The registry is in order in every run. -/
theorem Reachable.consistent (h : Reachable s) : s.Consistent none := by
  induction h with
  | start hfresh h => exact start_consistent hfresh h
  | deliver r hfresh _ ih => exact deliver_consistent ih hfresh
  | shutdown _ ih => exact shutdown_consistent ih

/-- **No stalled reply.** Between callbacks, every client is registered for input, and
for output exactly while its state is `Writing`. -/
theorem no_stalled_reply {s : Server} (h : Reachable s) {fd : Fd} {conn : Connection}
    (hfind : s.clients.find? fd = some conn) :
    ∃ registration, s.loop.callbacks.find? fd = some registration ∧
      registration.events.input = true ∧
      (registration.events.output = true ↔ conn.client.state = .writing) := by
  obtain ⟨events, hevents, hinput, houtput⟩ := h.consistent.client fd conn hfind nofun
  exact ⟨⟨events, .client fd⟩, hevents, hinput, houtput⟩

/-- A client that has sent `PING`, and has not been answered yet: it is registered for output. -/
theorem no_stalled_reply_pending :
    let ping : Chunk := ⟨ascii "*1\r\n$4\r\nPING\r\n", by decide, by decide⟩
    let s := ((started .empty {} 3 4).deliver
      { fd := 4, events := { input := true },
        outcomes := { accepting := .connection 7 true .failed } }).deliver
      { fd := 7, events := { input := true },
        outcomes := { incoming := .data ping .wouldBlock } }
    ∃ conn registration, s.clients.find? 7 = some conn ∧
      conn.client.writeBuf = ascii "+PONG\r\n" ∧
      s.loop.callbacks.find? 7 = some registration ∧ registration.events.input = true ∧
      registration.events.output = true := by
  intro ping s
  let values : List RespValue := [.array [.string (ascii "PING")]]
  let o : Outcomes := { incoming := .data ping .wouldBlock }
  let accepted := (started .empty {} 3 4).deliver
    { fd := 4, events := { input := true },
      outcomes := { accepting := .connection 7 true .failed } }
  let session := Connection.session { object := 0 } accepted.store
  have hvalues : ∀ v ∈ values, NoCrlfErrors v ∧ SizesBelow (2 ^ 63) v :=
    List.forall_mem_singleton.mpr (@strings_encodable [ascii "PING"] (by decide))
  have hresult : session.onReadable o.clock {} o.incoming =
      session.after o.clock {} ⟨values, [], false⟩ := onReadable_encoded rfl hvalues ping rfl
  have hread := @onClientReadable_of_some accepted 7 { object := 0 } rfl _ _ _ hresult true
  have hrun : s = (accepted.onClientReadable 7 o.clock o.incoming true).writeIfReady 7
      { input := true } o := rfl
  obtain ⟨conn, hfind, hreply, hwriting⟩ : ∃ conn, s.clients.find? 7 = some conn ∧
      conn.client.writeBuf = ascii "+PONG\r\n" ∧ conn.client.state = .writing := by
    rw [hrun, writeIfReady, Bool.and_false, if_neg Bool.false_ne_true, hread]
    exact ⟨_, rfl, rfl, rfl⟩
  have h : Reachable s :=
    .deliver _ trivial (.deliver _ ⟨by decide, trivial⟩ (reachable_started (by decide) .empty {}))
  obtain ⟨registration, hregistered, hinput, houtput⟩ := no_stalled_reply h hfind
  exact ⟨conn, registration, hfind, hreply, hregistered, hinput, houtput.mpr hwriting⟩

/-- **The registry is consistent.** Between callbacks, the counter is the number of
clients; there is a callback exactly for each client and for the listening and the
signal descriptor while they are open; and `close_client` has never found the
counter at zero. -/
theorem registry_consistent {s : Server} (h : Reachable s) :
    s.connectedClients = s.clients.size ∧
    (∀ fd, fd ∈ s.loop.callbacks.keys ↔
      fd ∈ s.clients.keys ∨ s.listenFd = some fd ∨ s.signalFd = some fd) ∧
    s.record.suppressed = 0 := by
  have hs := h.consistent
  refine ⟨hs.counted, fun fd => ?_, hs.unsuppressed⟩
  rw [FlatMap.mem_keys, FlatMap.mem_keys]
  refine ⟨hs.only fd, ?_⟩
  -- a client, the listener and the signals each have a callback
  rintro (hclient | hlisten | hsignal)
  · obtain ⟨conn, hfind⟩ := Option.isSome_iff_exists.mp hclient
    obtain ⟨events, hevents, -⟩ := hs.client fd conn hfind nofun
    rw [hevents]
    rfl
  · obtain ⟨-, events, hevents⟩ := hs.listener fd hlisten
    rw [hevents]
    rfl
  · obtain ⟨-, events, hevents⟩ := hs.signals fd hsignal
    rw [hevents]
    rfl

/-- One client is accepted, and one is lost as `epoll_ctl` fails. -/
theorem registry_consistent_accepted :
    let s := (started .empty {} 3 4).deliver
      { fd := 4, events := { input := true },
        outcomes := { accepting := .connection 7 true (.connection 8 false .failed) } }
    s.connectedClients = 1 ∧ s.connectedClients = s.clients.size ∧ s.record.suppressed = 0 := by
  intro s
  have h : Reachable s :=
    .deliver _ ⟨by decide, by decide, trivial⟩ (reachable_started (by decide) .empty {})
  obtain ⟨hcounted, -, hsuppressed⟩ := registry_consistent h
  exact ⟨by decide, hcounted, hsuppressed⟩

end Server

end Redix
