import Mathlib.Data.List.Perm.Basic
import Mathlib.Data.List.Range
import Mathlib.Logic.Function.Basic
import Redix.Server.Closing

/-!
# The accounts of the clients

A `Client` object is made for each accepted connection and owned by the map of clients,
until `close_client` destroys it. Whatever is said of an object over a whole run (what it was
asked, what it received) is said under its number, which no other object has.

- `objects`: the objects in the map and those destroyed. No operation loses one or has one
  twice (`closeClient_objects`, `update_objects`);
- `Tracked`: what is told of each object agrees with the client that it is. It passes from
  event to event (`deliver_tracked`), whatever is told, as long as reading is accounted for;
- `objects_accounted`: each object ever made is in the map, or was destroyed once.
-/

namespace Redix

namespace Server

variable {s : Server} {fd : Fd} {conn : Connection}

/-! ## The objects of a server -/

/-- The objects in the map, and those destroyed. -/
def objects (s : Server) : List Nat :=
  s.clients.values.map Connection.object ++ s.record.destroyed.map fun gone => gone.1.object

/-- A client that is closed goes from the one to the other. -/
theorem closeClient_objects (s : Server) (cause : Cause) (fd : Fd) :
    (s.closeClient cause fd).objects.Perm s.objects ∧
      (s.closeClient cause fd).record.objects = s.record.objects := by
  cases hfind : s.clients.find? fd with
  | none => rw [closeClient_of_none hfind]; exact ⟨.refl _, rfl⟩
  | some conn =>
    have hvalues := (FlatMap.values_erase hfind).map Connection.object
    have hdestroyed := destroyed_closeClient hfind cause
    have hclients : (s.closeClient cause fd).clients = s.clients.erase fd := by
      rw [closeClient, hfind]
    constructor
    -- the object goes from the clients to the destroyed, and the list stays a permutation
    · rw [objects, objects, hdestroyed, hclients, List.map_append, List.map_singleton]
      refine .trans ?_ (hvalues.append_right _).symm
      rw [← List.append_assoc]
      exact List.perm_append_singleton _ _
    · rw [closeClient, hfind]
      rfl

/-- Work on a client leaves it the object it is. -/
theorem update_objects (hfind : s.clients.find? fd = some conn) {conn' : Connection}
    (hobject : conn'.object = conn.object) (store : Store) :
    (s.update fd conn conn' store).objects.Perm s.objects := by
  have hbefore := (FlatMap.values_erase hfind).map Connection.object
  have hafter := (FlatMap.values_insert s.clients fd conn').map Connection.object
  rw [List.map_cons, hobject] at hafter
  exact (hafter.trans hbefore.symm).append_right _

/-- A client in the map is none that was destroyed. -/
theorem object_not_destroyed (hnodup : s.objects.Nodup)
    (hfind : s.clients.find? fd = some conn) {gone : Connection} {cause : Cause}
    (hgone : (gone, cause) ∈ s.record.destroyed) : gone.object ≠ conn.object := by
  obtain ⟨-, -, hdisjoint⟩ := List.nodup_append.mp hnodup
  exact (hdisjoint _ (List.mem_map_of_mem (FlatMap.mem_values_of_find? hfind)) _
    (List.mem_map.mpr ⟨_, hgone, rfl⟩)).symm

/-- Nor is it another one in the map. -/
theorem object_ne (hnodup : s.objects.Nodup) (hfind : s.clients.find? fd = some conn)
    {fd' : Fd} {conn' : Connection} (hfind' : s.clients.find? fd' = some conn')
    (hne : fd ≠ fd') : conn'.object ≠ conn.object := by
  have hrest : (s.clients.erase fd).find? fd' = some conn' := by
    rw [FlatMap.find?_erase, if_neg hne, hfind']
  obtain ⟨hlive, -, -⟩ := List.nodup_append.mp hnodup
  have hvalues := (FlatMap.values_erase hfind).map Connection.object
  have hnot := (List.nodup_cons.mp (hvalues.nodup_iff.mp hlive)).1
  intro heq
  exact hnot (heq ▸ List.mem_map_of_mem (FlatMap.mem_values_of_find? hrest))

/-! ## What is told of the objects -/

section tracked

variable {α : Type} {P Q : α → Connection → Prop} {blank : α} {told : Nat → α}

/-- What is told of each object: `P` says that it is true of a client in the map, `Q` that it
was true of a client when that was destroyed. Of the objects to come nothing is told. -/
structure Tracked (P Q : α → Connection → Prop) (blank : α) (told : Nat → α) (s : Server) :
    Prop where
  accounted : s.objects.Perm (List.range s.record.objects)
  live : ∀ fd conn, s.clients.find? fd = some conn → P (told conn.object) conn
  gone : ∀ conn cause, (conn, cause) ∈ s.record.destroyed → Q (told conn.object) conn
  unmade : ∀ object, s.record.objects ≤ object → told object = blank

/-- What has been told stays true of a client as long as nothing is read for it. -/
structure Tracks (P Q : α → Connection → Prop) (blank : α) : Prop where
  new : ∀ object, P blank { object }
  write : ∀ a conn out, P a conn → P a (conn.flushed (conn.client.onWritable out))
  close : ∀ a conn, P a conn → Q a conn

namespace Tracked

/-- No object is in two places. -/
theorem nodup (h : s.Tracked P Q blank told) : s.objects.Nodup :=
  h.accounted.nodup_iff.mpr List.nodup_range

/-- What is told may be told in other words. -/
theorem congr (h : s.Tracked P Q blank told) {told' : Nat → α}
    (heq : ∀ object, told object = told' object) : s.Tracked P Q blank told' := by
  rwa [← (funext heq : told = told')]

/-- A client in the map is an object that has been made. -/
theorem object_lt (h : s.Tracked P Q blank told) (hfind : s.clients.find? fd = some conn) :
    conn.object < s.record.objects := by
  refine List.mem_range.mp (h.accounted.mem_iff.mp (List.mem_append_left _ ?_))
  exact List.mem_map_of_mem (FlatMap.mem_values_of_find? hfind)

/-- Something new may be told of a client in the map: the others do not hear it. -/
theorem told_update (h : s.Tracked P Q blank told) (hfind : s.clients.find? fd = some conn)
    (a : α) :
    (∀ fd' conn', fd ≠ fd' → s.clients.find? fd' = some conn' →
      P (Function.update told conn.object a conn'.object) conn') ∧
    (∀ gone cause, (gone, cause) ∈ s.record.destroyed →
      Q (Function.update told conn.object a gone.object) gone) ∧
    ∀ object, s.record.objects ≤ object → Function.update told conn.object a object = blank := by
  refine ⟨fun fd' conn' hne hfind' => ?_, fun gone cause hgone => ?_, fun object hobject => ?_⟩
  · rw [Function.update_of_ne (object_ne h.nodup hfind hfind' hne)]
    exact h.live fd' conn' hfind'
  · rw [Function.update_of_ne (object_not_destroyed h.nodup hfind hgone)]
    exact h.gone gone cause hgone
  · have hlt := h.object_lt hfind
    rw [Function.update_of_ne (by omega)]
    exact h.unmade object hobject

end Tracked

/-! ### The operations on one client -/

/-- Of a client that is closed, what was told last stays true. -/
theorem closeClient_tracked (ht : Tracks P Q blank) (h : s.Tracked P Q blank told)
    (cause : Cause) (fd : Fd) : (s.closeClient cause fd).Tracked P Q blank told := by
  obtain ⟨hobjects, hmade⟩ := s.closeClient_objects cause fd
  constructor
  · rw [hmade]
    exact hobjects.trans h.accounted
  · intro fd' conn hfind
    rw [find?_closeClient] at hfind
    split_ifs at hfind
    exact h.live fd' conn hfind
  -- the connection closed is the only one newly gone
  · intro conn cause' hgone
    cases hfind : s.clients.find? fd with
    | none =>
      rw [closeClient_of_none hfind] at hgone
      exact h.gone conn cause' hgone
    | some conn' =>
      rw [destroyed_closeClient hfind] at hgone
      rcases List.mem_append.mp hgone with hgone | hgone
      · exact h.gone conn cause' hgone
      · obtain ⟨rfl, rfl⟩ := Prod.mk.inj (List.mem_singleton.mp hgone)
        exact ht.close _ _ (h.live fd conn hfind)
  · rw [hmade]
    exact h.unmade

/-- Work on a client, of which something may be told. -/
theorem update_tracked (h : s.Tracked P Q blank told) (hfind : s.clients.find? fd = some conn)
    (conn' : Connection) (hobject : conn'.object = conn.object) {a : α} (hconn' : P a conn')
    (store : Store) :
    (s.update fd conn conn' store).Tracked P Q blank (Function.update told conn.object a) := by
  obtain ⟨hlive, hgone, hunmade⟩ := h.told_update hfind a
  constructor
  · exact (update_objects hfind hobject store).trans h.accounted
  -- the connection updated is told the news, the others are under other numbers
  · intro fd' conn₁ hfind₁
    have hfind₁ : (s.clients.insert fd conn').find? fd' = some conn₁ := hfind₁
    rw [FlatMap.find?_insert] at hfind₁
    split_ifs at hfind₁ with hfd
    · cases hfind₁
      rw [hobject, Function.update_self]
      exact hconn'
    · exact hlive fd' conn₁ hfd hfind₁
  · exact hgone
  · exact hunmade

/-- Work on a client that is then closed. -/
theorem update_close_tracked (h : s.Tracked P Q blank told)
    (hfind : s.clients.find? fd = some conn) (conn' : Connection)
    (hobject : conn'.object = conn.object) {a : α} (hconn' : Q a conn') (store : Store)
    (cause : Cause) :
    ((s.update fd conn conn' store).closeClient cause fd).Tracked P Q blank
      (Function.update told conn.object a) := by
  obtain ⟨hlive, hgone, hunmade⟩ := h.told_update hfind a
  have hself : (s.update fd conn conn' store).clients.find? fd = some conn' :=
    FlatMap.find?_insert_self _ _ _
  obtain ⟨hobjects, hmade⟩ := (s.update fd conn conn' store).closeClient_objects cause fd
  constructor
  · rw [hmade]
    exact hobjects.trans ((update_objects hfind hobject store).trans h.accounted)
  -- closed at once, so `Q` is asked of it and `P` only of the others
  · intro fd' conn₁ hfind₁
    rw [find?_closeClient] at hfind₁
    split_ifs at hfind₁ with hfd
    have hfind₁ : (s.clients.insert fd conn').find? fd' = some conn₁ := hfind₁
    rw [FlatMap.find?_insert, if_neg hfd] at hfind₁
    exact hlive fd' conn₁ hfd hfind₁
  · intro gone cause' hmem
    rw [destroyed_closeClient hself] at hmem
    rcases List.mem_append.mp hmem with hmem | hmem
    · exact hgone gone cause' hmem
    · obtain ⟨rfl, rfl⟩ := Prod.mk.inj (List.mem_singleton.mp hmem)
      rw [hobject, Function.update_self]
      exact hconn'
  · rw [hmade]
    exact hunmade

/-- A change of interest tells nothing new, even if it closes the client. -/
theorem setInterest_tracked (ht : Tracks P Q blank) (h : s.Tracked P Q blank told) (fd : Fd)
    (events : Events) (modified : Bool) :
    (s.setInterest fd events modified).Tracked P Q blank told := by
  cases modified with
  | true => exact ⟨h.accounted, h.live, h.gone, h.unmade⟩
  | false => exact closeClient_tracked ht ⟨h.accounted, h.live, h.gone, h.unmade⟩ _ _

/-- Reading for a client tells something new of it, whether it stays or is closed. -/
theorem onClientReadable_tracked (ht : Tracks P Q blank) (h : s.Tracked P Q blank told)
    (hfind : s.clients.find? fd = some conn) {clock : Nat → UInt64} {incoming : Incoming}
    {a : α} (hclosed : Q a
      (conn.resume ((conn.session s.store).onReadable clock s.aof incoming).2))
    (hstays : ((conn.session s.store).onReadable clock s.aof incoming).1 = true →
      P a (conn.resume ((conn.session s.store).onReadable clock s.aof incoming).2))
    (modified : Bool) :
    (s.onClientReadable fd clock incoming modified).Tracked P Q blank
      (Function.update told conn.object a) := by
  generalize hresult : (conn.session s.store).onReadable clock s.aof incoming = result
    at hclosed hstays
  rw [onClientReadable_of_some hfind hresult]
  split_ifs with hstays' hwriting
  · exact setInterest_tracked ht
      (update_tracked h hfind (conn.resume result.2) rfl (hstays hstays') _) _ _ _
  · exact update_tracked h hfind (conn.resume result.2) rfl (hstays hstays') _
  · exact update_close_tracked h hfind (conn.resume result.2) rfl hclosed _ _

/-- Writing to a client tells nothing new. -/
theorem onClientWritable_tracked (ht : Tracks P Q blank) (h : s.Tracked P Q blank told)
    (fd : Fd) (outgoing : Outgoing) (modified : Bool) :
    (s.onClientWritable fd outgoing modified).Tracked P Q blank told := by
  cases hfind : s.clients.find? fd with
  | none => rwa [onClientWritable_of_none hfind]
  | some conn =>
    -- nothing new is told of the client
    have hupdate : (s.update fd conn (conn.flushed (conn.client.onWritable outgoing))
        s.store).Tracked P Q blank told := by
      have hconn' := ht.write _ _ outgoing (h.live fd conn hfind)
      have htold := update_tracked h hfind (conn.flushed _) rfl hconn' s.store
      rwa [Function.update_eq_self] at htold
    rw [onClientWritable_of_some hfind rfl]
    split_ifs
    · exact setInterest_tracked ht hupdate _ _ _
    · exact hupdate
    · exact closeClient_tracked ht hupdate _ _

/-- A new client is the next object. -/
theorem acceptClient_tracked (ht : Tracks P Q blank) (h : s.Tracked P Q blank told)
    (hfresh : ¬ s.IsOpen fd) (added : Bool) :
    (s.acceptClient fd added).Tracked P Q blank told := by
  have hnone := find?_of_fresh hfresh
  have hnew : ({ s with
      clients := s.clients.insert fd { object := s.record.objects }
      connectedClients := s.connectedClients + 1
      record := { s.record with objects := s.record.objects + 1 } } :
      Server).Tracked P Q blank told := by
    constructor
    -- the new object has the number after all those made
    · have hvalues := (FlatMap.values_insert_new hnone
        { object := s.record.objects }).map Connection.object
      show (List.map Connection.object _ ++ _).Perm (List.range (s.record.objects + 1))
      rw [List.range_succ]
      exact ((hvalues.append_right _).trans (h.accounted.cons _)).trans
        (List.perm_append_singleton _ _).symm
    · intro fd' conn hfind
      have hfind : (s.clients.insert fd { object := s.record.objects }).find? fd' =
        some conn := hfind
      rw [FlatMap.find?_insert] at hfind
      split_ifs at hfind
      · cases hfind
        rw [h.unmade _ (Nat.le_refl _)]
        exact ht.new _
      · exact h.live fd' conn hfind
    · exact h.gone
    · exact fun object hobject => h.unmade object (Nat.le_of_succ_le hobject)
  exact setInterest_tracked ht hnew fd _ added

/-! ### The other callbacks -/

/-- Closing all clients in a list tells nothing new, by induction on it. -/
theorem closeAll_tracked (ht : Tracks P Q blank) (cause : Cause) (fds : List Fd) :
    ∀ {s : Server}, s.Tracked P Q blank told →
      (fds.foldl (fun s fd => s.closeClient cause fd) s).Tracked P Q blank told := by
  induction fds with
  | nil => exact fun h => h
  | cons fd rest ih => exact fun h => ih (closeClient_tracked ht h cause fd)

/-- A shutdown tells nothing new. -/
theorem shutdown_tracked (ht : Tracks P Q blank) (h : s.Tracked P Q blank told) :
    s.shutdown.Tracked P Q blank told := by
  have hclosed : s.clientsClosed.Tracked P Q blank told :=
    closeAll_tracked ht .shutdown _ ⟨h.accounted, h.live, h.gone, h.unmade⟩
  obtain ⟨hclients, -, hrecord, -⟩ := s.clientsClosed.closeServer_fields
  have hobjects : s.shutdown.objects = s.clientsClosed.objects := by
    rw [objects, objects, shutdown_eq, hclients, hrecord]
  have hmade : s.shutdown.record = s.clientsClosed.record := by rw [shutdown_eq, hrecord]
  constructor
  · rw [hobjects, hmade]
    exact hclosed.accounted
  · intro fd conn hfind
    rw [shutdown_eq, hclients] at hfind
    exact hclosed.live fd conn hfind
  · rw [hmade]
    exact hclosed.gone
  · rw [hmade]
    exact hclosed.unmade

/-- Accepting tells nothing: new objects have nothing told of them yet. -/
theorem onNewConnection_tracked (ht : Tracks P Q blank) (accepting : Accepting) :
    ∀ {s : Server}, s.Tracked P Q blank told → FreshFds accepting s →
      (s.onNewConnection accepting).Tracked P Q blank told := by
  induction accepting with
  | failed => exact fun h _ => h
  | connection fd added next ih =>
    intro s h hfresh
    rw [onNewConnection]
    split_ifs
    · exact ih (acceptClient_tracked ht h hfresh.1 added) hfresh.2
    · exact h

/-- Signals tell nothing new. -/
theorem onSignal_tracked (ht : Tracks P Q blank) (h : s.Tracked P Q blank told)
    (signals : SignalReads) : (s.onSignal signals).Tracked P Q blank told := by
  induction signals with
  | done => exact h
  | signal terminates next ih =>
    rw [onSignal]
    split_ifs
    · exact shutdown_tracked ht h
    · exact ih
    · exact h

/-! ### Events -/

/-- The client that an event has the server read for. -/
def reader (r : Ready) (s : Server) : Option Connection :=
  match s.loop.callbacks.find? r.fd with
  | some ⟨_, .client fd⟩ => if r.events.reads then s.clients.find? fd else none
  | _ => none

/-- What is told after an event: something new of the client that it reads for. -/
def toldAfter (told : Nat → α) (news : Connection → α) : Option Connection → Nat → α
  | none => told
  | some conn => Function.update told conn.object (news conn)

/-- The client that is read for is in the map. -/
theorem find?_of_reader {r : Ready} (h : s.reader r = some conn) :
    ∃ fd, s.clients.find? fd = some conn := by
  unfold reader at h
  split at h
  · split_ifs at h
    exact ⟨_, h⟩
  · cases h

/-- The callback of a client reads for it if the events say so. -/
theorem reader_of_client {r : Ready} {events : Events} {fd : Fd}
    (h : s.loop.callbacks.find? r.fd = some ⟨events, .client fd⟩) :
    s.reader r = if r.events.reads then s.clients.find? fd else none := by
  rw [reader, h]

/-- The events of a client tell something new of it if it is read for, and nothing otherwise. -/
theorem onClientEvents_tracked (ht : Tracks P Q blank) (h : s.Tracked P Q blank told)
    (events : Events) (o : Outcomes) (news : Connection → α)
    (hread : events.reads = true → ∀ conn, s.clients.find? fd = some conn →
      Q (news conn)
        (conn.resume ((conn.session s.store).onReadable o.clock s.aof o.incoming).2) ∧
      (((conn.session s.store).onReadable o.clock s.aof o.incoming).1 = true →
        P (news conn)
          (conn.resume ((conn.session s.store).onReadable o.clock s.aof o.incoming).2))) :
    (s.onClientEvents fd events o).Tracked P Q blank
      (toldAfter told news (if events.reads then s.clients.find? fd else none)) := by
  rw [onClientEvents_eq]
  -- a hangup closes before anything is read
  by_cases hhangup : (events.error || events.hangup || events.peerHangup) = true
  · have hreads : ¬ events.reads = true := by
      rw [Events.reads, hhangup]
      exact Bool.false_ne_true
    rw [if_pos hhangup, if_neg hreads]
    exact closeClient_tracked ht h _ _
  have hafter : (s.readIfReady fd events o).Tracked P Q blank
      (toldAfter told news (if events.reads then s.clients.find? fd else none)) := by
    have hinput : events.reads = events.input := by
      rw [Events.reads, Bool.eq_false_iff.mpr hhangup]
      rfl
    rw [readIfReady, ← hinput]
    split_ifs with hreads
    · cases hfind : s.clients.find? fd with
      | none => rwa [onClientReadable_of_none hfind]
      | some conn =>
        obtain ⟨hclosed, hstays⟩ := hread hreads conn hfind
        exact onClientReadable_tracked ht h hfind hclosed hstays _
    · exact h
  generalize toldAfter told news _ = told' at hafter ⊢
  rw [if_neg hhangup, writeIfReady]
  split_ifs
  · exact onClientWritable_tracked ht hafter _ _ _
  · exact hafter

/-- **One event** keeps what is told true, if reading does for what it has to tell. -/
theorem deliver_tracked (ht : Tracks P Q blank) (h : s.Tracked P Q blank told) {r : Ready}
    (hfresh : s.Admits r) (news : Connection → α)
    (hread : ∀ conn, s.reader r = some conn →
      let result := (conn.session s.store).onReadable r.outcomes.clock s.aof r.outcomes.incoming
      Q (news conn) (conn.resume result.2) ∧
        (result.1 = true → P (news conn) (conn.resume result.2))) :
    (s.deliver r).Tracked P Q blank (toldAfter told news (s.reader r)) := by
  cases hfind : s.loop.callbacks.find? r.fd with
  | none =>
    rw [deliver_of_none hfind, reader, hfind]
    exact h
  | some registration =>
    obtain ⟨events, callback⟩ := registration
    rw [deliver_of_some hfind]
    -- only a client callback reads, and only then is there news
    cases callback with
    | listener =>
      have hreader : s.reader r = none := by rw [reader, hfind]
      rw [hreader, invoke]
      split_ifs
      · exact shutdown_tracked ht h
      · exact onNewConnection_tracked ht _ h hfresh
    | signals =>
      have hreader : s.reader r = none := by rw [reader, hfind]
      rw [hreader, invoke]
      split_ifs
      · exact shutdown_tracked ht h
      · exact onSignal_tracked ht h _
    | client fd =>
      rw [reader_of_client hfind]
      refine onClientEvents_tracked ht h _ _ news fun hreads conn hconn => hread conn ?_
      rw [reader_of_client hfind, if_pos hreads, hconn]

/-- Of a server that has been started nothing is told yet. -/
theorem started_tracked {store : Store} {aof : Aof} {signalFd listenFd : Fd} :
    (started store aof signalFd listenFd).Tracked P Q blank fun _ => blank := by
  constructor
  · exact .refl _
  · exact fun fd conn hfind => nomatch hfind
  · exact fun conn cause hgone => absurd hgone List.not_mem_nil
  · exact fun _ _ => rfl

end tracked

/-! ## Every object is accounted for -/

/-- If nothing is told, nothing can be false. -/
theorem tracks_trivial : Tracks (fun (_ : Unit) _ => True) (fun _ _ => True) () :=
  ⟨fun _ => trivial, fun _ _ _ _ => trivial, fun _ _ _ => trivial⟩

/-- The accounts balance in every run. -/
theorem Reachable.tracked (h : Reachable s) :
    s.Tracked (fun (_ : Unit) _ => True) (fun _ _ => True) () fun _ => () := by
  induction h with
  | start hfresh h =>
    obtain ⟨signalFd, listenFd, -, -, rfl⟩ := start_ok h
    exact started_tracked
  | deliver r hfresh _ ih =>
    exact deliver_tracked tracks_trivial ih hfresh (fun _ => ()) fun _ _ =>
      ⟨trivial, fun _ => trivial⟩
  | shutdown _ ih => exact shutdown_tracked tracks_trivial ih

/-- **Every object is accounted for.** In every run, the clients in the map and those
destroyed are together the objects ever made, each of them once: none is lost without being
destroyed, none destroyed twice, and none destroyed that is still in the map. So the counter
of connected clients is what has been made and not destroyed; and once the listener is
closed, everything has been destroyed. -/
theorem objects_accounted {s : Server} (h : Reachable s) :
    (s.clients.values.map Connection.object ++
      s.record.destroyed.map fun gone => gone.1.object).Perm (List.range s.record.objects) ∧
    s.connectedClients + s.record.destroyed.length = s.record.objects ∧
    (s.listenFd = none →
      (s.record.destroyed.map fun gone => gone.1.object).Perm (List.range s.record.objects)) := by
  have haccounted : s.objects.Perm (List.range s.record.objects) := h.tracked.accounted
  have hlength := haccounted.length_eq
  refine ⟨haccounted, ?_, fun hclosed => ?_⟩
  · rw [objects, List.length_append, List.length_map, List.length_map, List.length_range] at hlength
    rw [h.consistent.counted, ← hlength, FlatMap.size, FlatMap.values, List.length_map]
  -- a closed server has no clients, so all that were made are among the destroyed
  · have hnone := (h.consistent.closed hclosed).2
    have hvalues : s.clients.values = [] := by
      rw [FlatMap.values, List.map_eq_nil_iff]
      refine List.eq_nil_iff_forall_not_mem.mpr fun e he => ?_
      rw [s.clients.mem_entries_iff, hnone] at he
      cases he
    rw [objects, hvalues] at haccounted
    exact haccounted

/-- Two clients are accepted; one hangs up, and its descriptor is taken again before the
server is shut down. -/
theorem objects_accounted_shutdown :
    let accept (accepting : Accepting) : Ready :=
      { fd := 4, events := { input := true }, outcomes := { accepting } }
    let s := ((((started .empty {} 3 4).deliver
      (accept (.connection 7 true (.connection 8 true .failed)))).deliver
      { fd := 7, events := { hangup := true } }).deliver
      (accept (.connection 7 true .failed))).shutdown
    (s.record.destroyed.map fun gone => gone.1.object).Perm (List.range 3) := by
  intro accept s
  have h : Reachable s :=
    .shutdown (.deliver _ ⟨by decide, trivial⟩ (.deliver _ trivial
      (.deliver _ ⟨by decide, by decide, trivial⟩ (reachable_started (by decide) .empty {}))))
  have hmade : s.record.objects = 3 := rfl
  have hclosed : s.listenFd = none := rfl
  obtain ⟨-, -, hdestroyed⟩ := objects_accounted h
  rw [← hmade]
  exact hdestroyed hclosed

end Server

end Redix
