import Redix.Command.Isolation
import Redix.Server.Serial

/-!
# Clients do not interfere

What the isolation of keys is worth at the server: a client that has keys to itself is
answered as if it were the only one. All its replies, byte for byte, are determined by the
bytes it sends, the clock readings at which its requests are served, and what its keys hold
in the beginning; whatever other clients send, and however the events come.

- `SameOn`: two stores hold the same under some keys;
- `respond_own`, `respond_other`: what one request does to that;
- `clients_do_not_interfere`: all runs.
-/

namespace Redix

open Framing Keyspace

variable {F : Bytes → Prop} {request : UInt64 × RespValue} {store store' : Store}

/-- The same entries under the keys in `F`, expired or not. -/
def SameOn (F : Bytes → Prop) (store store' : Store) : Prop :=
  ∀ key, F key → store.data.find? key = store'.data.find? key

/-- What the request asks for, if it is a command, is about keys in `F`. -/
def OwnRequest (F : Bytes → Prop) (request : UInt64 × RespValue) : Prop :=
  ∀ cmd, parseCommand request.2 = .ok cmd → Own F (.command cmd)

/-- What the request asks for, if it is a command, is not about keys in `F`. -/
def ForeignRequest (F : Bytes → Prop) (request : UInt64 × RespValue) : Prop :=
  ∀ cmd, parseCommand request.2 = .ok cmd → Foreign F (.command cmd)

/-- The exchange is about the message that was sent. -/
theorem respond_value (request : UInt64 × RespValue) (store : Store) :
    (respond request store).1.value = request.2 := by
  rw [respond]
  cases parseCommand request.2 <;> rfl

/-- **One request of the client**: the same answer, and the same under its keys again. -/
theorem respond_own (hown : OwnRequest F request) (h : SameOn F store store') :
    (respond request store).1 = (respond request store').1 ∧
      SameOn F (respond request store).2 (respond request store').2 := by
  rw [respond, respond]
  cases hparse : parseCommand request.2 with
  | error reply => exact ⟨rfl, h⟩
  | ok cmd =>
    obtain ⟨hlocal, hkeys⟩ := hown cmd hparse
    rcases dispatch_within request.1 hlocal with hidle | ⟨p, hp, hrun⟩
    · refine ⟨congrArg (Exchange.mk request.2 (some cmd)) ((hidle store).2 store'), ?_⟩
      show SameOn F (dispatch request.1 cmd store).2 (dispatch request.1 cmd store').2
      rwa [(hidle store).1, (hidle store').1]
    · obtain ⟨hreply, hafter⟩ := Program.run_local (alive request.1) p hp
        fun key hkey => h key (hkeys key hkey)
      simp only [hrun]
      refine ⟨congrArg (fun reply : Reply => Exchange.mk request.2 (some cmd) reply.bytes) hreply,
        fun key hkey => ?_⟩
      by_cases hmem : key ∈ footprint cmd
      · exact hafter key hmem
      · -- a key of the client that this command does not name
        exact (Program.run_frame hmem p hp).trans
          ((h key hkey).trans (Program.run_frame hmem p hp).symm)

/-- **One request of another client**: nothing under the keys changes. -/
theorem respond_other (hforeign : ForeignRequest F request) (h : SameOn F store store') :
    SameOn F (respond request store).2 store' := by
  rw [respond]
  cases hparse : parseCommand request.2 with
  | error reply => exact h
  | ok cmd =>
    obtain ⟨hflush, hkeys⟩ := hforeign cmd hparse
    intro key hkey
    show (dispatch request.1 cmd store).2.data.find? key = _
    rw [dispatch_frame request.1 (fun hmem => hkeys key hmem hkey) hflush, h key hkey]

namespace Server

/-- **Clients do not interfere.** In every run, let a client's commands be on keys in `F`, and
those of all other clients not. Then what the client has been sent, and what is still to be
sent, is what one object answers to the client's messages alone, at the same clock readings,
from any store with the same entries under the keys in `F`; and the messages are those that the
client's bytes begin with. -/
theorem clients_do_not_interfere (store : Store) (aof : Aof) (signalFd listenFd : Fd)
    (events : List Ready) (h : AdmitsAll events (started store aof signalFd listenFd))
    {client : Nat} (hdivided : ∀ request ∈ serial events (started store aof signalFd listenFd),
      if request.1 = client then OwnRequest F request.2 else ForeignRequest F request.2)
    (hsame : SameOn F store store') :
    let s₀ := started store aof signalFd listenFd
    let own := Service.own client (serial events s₀)
    let answers := (runSteps respond own store').1
    ∀ conn, (s₀.runOnce events).Has conn → conn.object = client →
      conn.log = answers ∧
      own.map Prod.snd = (respFraming.drain (input events s₀ client)).values ∧
      conn.sent ++ conn.client.unsent = (answers.map Exchange.reply).flatten := by
  rintro s₀ own answers conn hconn rfl
  obtain ⟨-, htold⟩ := runOnce_told store aof signalFd listenFd events h
  have htrue := htold conn hconn
  have hlog : conn.log = answers := by
    have hservice := @Service.log_alone Nat (UInt64 × RespValue) Exchange Store _ respond
      (SameOn F) conn.object (serial events s₀)
      (fun i hi _ _ hR => respond_own (by simpa using hdivided _ hi) hR)
      (fun request hrequest hne _ _ hR =>
        respond_other (by simpa [hne] using hdivided _ hrequest) hR)
      ⟨store, fun _ => []⟩ store' hsame
    exact htrue.log.trans hservice
  refine ⟨hlog, ?_, ?_⟩
  -- what is in the log of a run does not depend on the store, but for the replies
  · have hvalues (requests : List (UInt64 × RespValue)) : ∀ store : Store,
        (runSteps respond requests store).1.map Exchange.value = requests.map Prod.snd := by
      induction requests with
      | nil => exact fun _ => rfl
      | cons request rest ih =>
        exact fun store => List.cons_eq_cons.mpr ⟨respond_value request store, ih _⟩
    rw [← htrue.messages, hlog]
    exact (hvalues own store').symm
  · rw [← hlog]
    exact htrue.intact.stream

/-- The requests of an event by which a client sends encodings, the first that it sends. -/
theorem requests_encoded {s : Server} {r : Ready} {conn : Connection}
    (hreader : s.reader r = some conn) (hbuf : conn.client.parser.buf = [])
    {vs : List RespValue} (hvs : ∀ v ∈ vs, NoCrlfErrors v ∧ SizesBelow (2 ^ 63) v) {chunk : Chunk}
    (hbytes : chunk.bytes = (vs.map respEncode).flatten) {next : Incoming}
    (hnext : next.chunks = []) (hincoming : r.outcomes.incoming = .data chunk next) :
    s.requests r =
      (timed r.outcomes.clock conn.log.length vs).map fun request => (conn.object, request) := by
  have hreceived : (conn.session s.store).received (.data chunk next) = ⟨vs, [], false⟩ :=
    received_encoded hbuf hvs chunk hbytes hnext
  rw [requests, hreader, hincoming]
  simp only [hreceived]

/-- Two clients, one with the key `a`, the other with the key `A`. -/
theorem clients_do_not_interfere_two :
    let incr : RespValue := .array ([ascii "INCR", ascii "a"].map .string)
    let del : RespValue := .array ([ascii "DEL", ascii "A"].map .string)
    let chunk : Chunk := ⟨([incr, incr].map respEncode).flatten, by decide, by decide⟩
    let chunk' : Chunk := ⟨([del].map respEncode).flatten, by decide, by decide⟩
    let events : List Ready := [
      { fd := 4, events := { input := true },
        outcomes := { accepting := .connection 7 true (.connection 8 true .failed) } },
      { fd := 8, events := { input := true },
        outcomes := { incoming := .data chunk' .wouldBlock } },
      { fd := 7, events := { input := true }, outcomes := { incoming := .data chunk .eof } }]
    ∀ conn, ((started .empty {} 3 4).runOnce events).Has conn → conn.object = 0 →
      conn.sent ++ conn.client.unsent = ascii ":1\r\n:2\r\n" := by
  intro incr del chunk chunk' events conn hconn hobject
  let accepted := (started .empty {} 3 4).deliver events[0]
  have hincr := @strings_encodable [ascii "INCR", ascii "a"] (by decide)
  have hdel := @strings_encodable [ascii "DEL", ascii "A"] (by decide)
  -- reading for the one leaves the other's connection as it is
  have hone : ∀ conn, accepted.clients.find? 8 = some conn → conn.object = 1 := by
    rintro _ ⟨⟩
    rfl
  have hworks : WorksOn 8 1 accepted (accepted.deliver events[1]) :=
    onClientEvents_worksOn hone { input := true } events[1].outcomes
  have hreader : (accepted.deliver events[1]).reader events[2] = some { object := 0 } := by
    have hcallback : (accepted.deliver events[1]).loop.callbacks.find? 7 =
        some ⟨{ input := true }, .client 7⟩ := hworks.callbacks 7 (by decide)
    have hclient : (accepted.deliver events[1]).clients.find? 7 = some { object := 0 } :=
      hworks.clients 7 (by decide)
    rw [reader_of_client hcallback]
    exact hclient
  have hserial : serial events (started .empty {} 3 4) =
      [(1, 0, del), (0, 0, incr), (0, 0, incr)] := by
    show [] ++ (accepted.requests events[1] ++ ((accepted.deliver events[1]).requests events[2] ++
      [])) = _
    rw [@requests_encoded accepted events[1] { object := 1 } rfl rfl [del]
        (List.forall_mem_singleton.mpr hdel) chunk' rfl .wouldBlock rfl rfl,
      @requests_encoded _ events[2] _ hreader rfl [incr, incr]
        (List.forall_mem_cons.mpr ⟨hincr, List.forall_mem_singleton.mpr hincr⟩) chunk rfl .eof rfl
        rfl]
    rfl
  have hown : OwnRequest (· = ascii "a") (0, incr) := by
    intro cmd hparse
    obtain rfl := Except.ok.inj hparse
    exact ⟨by decide, by decide⟩
  have hdivided : ∀ request ∈ serial events (started .empty {} 3 4),
      if request.1 = 0 then OwnRequest (· = ascii "a") request.2
      else ForeignRequest (· = ascii "a") request.2 := by
    rw [hserial]
    refine List.forall_mem_cons.mpr ⟨?_, List.forall_mem_cons.mpr ⟨hown,
      List.forall_mem_singleton.mpr hown⟩⟩
    intro cmd hparse
    obtain rfl := Except.ok.inj hparse
    exact ⟨by decide, by decide⟩
  obtain ⟨-, -, hbytes⟩ := clients_do_not_interfere .empty {} 3 4 events
    ⟨⟨by decide, by decide, trivial⟩, trivial, trivial, trivial⟩ hdivided (fun _ _ => rfl)
    conn hconn hobject
  rw [hbytes, hserial]
  rfl

end Server

end Redix
