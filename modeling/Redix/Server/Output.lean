import Redix.Server.Client

/-!
# The reply stream of a connection (client.cpp)

The writing half of a connection: replies are appended to the write buffer, and
`on_writable` hands to `send` what the kernel will take, from the write offset on.

- `Client.unsent`: what a write buffer still stands for;
- `Client.Tidy`: the offset lies within the buffer, and the state says whether
  anything is unsent. Both operations keep it (`tidy_enqueueResponse`,
  `tidy_onWritable`);
- `unsent_onWritable`: what is sent is taken off the front of what was unsent;
- `reply_stream_intact`: so over a whole run no byte is lost or sent twice.

What the successive `send` calls of one `on_writable` return is a parameter
(`Outgoing`), as for `recv`.
-/

namespace Redix

/-! ## Sending -/

/-- What the successive `send` calls of one `on_writable` return. -/
inductive Outgoing where
  /-- At least one byte is taken: `spare + 1` of them, or all if there are fewer. -/
  | taken (spare : Nat) (next : Outgoing)
  /-- `0`: nothing is taken. -/
  | nothing
  /-- `EAGAIN` or `EWOULDBLOCK`. -/
  | wouldBlock
  /-- Any other failure. -/
  | failed

/-- What one `on_writable` comes to: whether the connection stays, the bytes that
`send` took, and the client afterwards. -/
structure Flushed where
  stays : Bool
  sent : Bytes
  client : Client

namespace Client

/-- `Client::on_writable` -/
def onWritable (client : Client) (out : Outgoing) : Flushed :=
  if client.writeOffset < client.writeBuf.length then
    match out with
    | .failed => ⟨false, [], client⟩
    -- the offset stays for the next call
    | .wouldBlock => ⟨true, [], client⟩
    | .nothing => ⟨true, [], client⟩
    | .taken spare next =>
      let remaining := client.writeBuf.drop client.writeOffset
      let n := min (spare + 1) remaining.length
      let flushed := onWritable { client with writeOffset := client.writeOffset + n } next
      { flushed with sent := remaining.take n ++ flushed.sent }
  else ⟨true, [], { client with writeBuf := [], writeOffset := 0, state := .reading }⟩

/-- The bytes of the write buffer that have not been sent. -/
def unsent (client : Client) : Bytes := client.writeBuf.drop client.writeOffset

/-- The offset is within the buffer, and the client reads exactly if everything has
been sent. -/
structure Tidy (client : Client) : Prop where
  offset_le : client.writeOffset ≤ client.writeBuf.length
  reading_iff : client.state = .reading ↔ client.unsent = []
  not_closing : client.state ≠ .closing

variable {client : Client} {out : Outgoing}

/-- Nothing is unsent exactly if the offset is at the end. -/
theorem unsent_eq_nil : client.unsent = [] ↔ client.writeBuf.length ≤ client.writeOffset :=
  List.drop_eq_nil_iff

/-- A new client is tidy. -/
theorem tidy_new : Tidy {} := by
  constructor
  · exact Nat.le_refl 0
  · exact iff_of_true rfl rfl
  · exact fun h => by cases h

/-! ### Enqueueing -/

/-- A reply goes behind what is unsent. -/
theorem unsent_enqueueResponse (h : client.Tidy) (data : Bytes) :
    (client.enqueueResponse data).unsent = client.unsent ++ data :=
  List.drop_append_of_le_length h.offset_le

/-- A client stays tidy with a reply to send. -/
theorem tidy_enqueueResponse (h : client.Tidy) {data : Bytes} (hdata : data ≠ []) :
    (client.enqueueResponse data).Tidy := by
  constructor
  · show client.writeOffset ≤ (client.writeBuf ++ data).length
    have hle := h.offset_le
    rw [List.length_append]
    omega
  · have hunsent : (client.enqueueResponse data).unsent ≠ [] := by
      rw [unsent_enqueueResponse h]
      exact List.append_ne_nil_of_right_ne_nil _ hdata
    exact iff_of_false (fun hstate => by cases hstate) hunsent
  · exact fun hstate => by cases hstate

/-! ### Flushing -/

/-- The client after a `send` that takes `n` bytes. -/
def advance (client : Client) (n : Nat) : Client :=
  { client with writeOffset := client.writeOffset + n }

/-- The client once everything has been sent. -/
def reset (client : Client) : Client :=
  { client with writeBuf := [], writeOffset := 0, state := .reading }

/-- What has been sent is no longer unsent. -/
theorem unsent_advance (client : Client) (n : Nat) :
    (client.advance n).unsent = client.unsent.drop n := by
  rw [unsent, unsent, List.drop_drop]
  rfl

/-- Induction over the `send` calls of one `on_writable`: there is nothing to send, or
a call takes nothing and ends the loop, or it takes bytes and the loop goes on. -/
theorem onWritable_induction {P : Client → Flushed → Prop}
    (hdone : ∀ client, client.unsent = [] → P client ⟨true, [], client.reset⟩)
    (hstop : ∀ client stays, client.unsent ≠ [] → P client ⟨stays, [], client⟩)
    (htaken : ∀ client n flushed, client.unsent ≠ [] → n ≤ client.unsent.length →
      P (client.advance n) flushed →
      P client { flushed with sent := client.unsent.take n ++ flushed.sent })
    (client : Client) (out : Outgoing) : P client (client.onWritable out) := by
  have hne {client : Client} (h : client.writeOffset < client.writeBuf.length) :
      client.unsent ≠ [] := fun hnil => Nat.not_lt.mpr (unsent_eq_nil.mp hnil) h
  have hnil {client : Client} (h : ¬ client.writeOffset < client.writeBuf.length) :
      client.unsent = [] := unsent_eq_nil.mpr (Nat.not_lt.mp h)
  induction out generalizing client with
  | failed =>
    rw [onWritable]
    split_ifs with h
    · exact hstop _ _ (hne h)
    · exact hdone _ (hnil h)
  | wouldBlock =>
    rw [onWritable]
    split_ifs with h
    · exact hstop _ _ (hne h)
    · exact hdone _ (hnil h)
  | nothing =>
    rw [onWritable]
    split_ifs with h
    · exact hstop _ _ (hne h)
    · exact hdone _ (hnil h)
  | taken spare next ih =>
    rw [onWritable]
    split_ifs with h
    · exact htaken client _ _ (hne h) (Nat.min_le_right _ _) (ih _)
    · exact hdone _ (hnil h)

/-- **A call loses nothing and repeats nothing**: what it sends is taken off the front
of what was unsent. -/
theorem unsent_onWritable (client : Client) (out : Outgoing) :
    (client.onWritable out).sent ++ (client.onWritable out).client.unsent =
      client.unsent := by
  refine onWritable_induction (P := fun client flushed =>
    flushed.sent ++ flushed.client.unsent = client.unsent) ?_ ?_ ?_ client out
  · intro client h
    rw [h]
    rfl
  · exact fun client stays _ => rfl
  · intro client n flushed _ _ ih
    show (client.unsent.take n ++ flushed.sent) ++ flushed.client.unsent = client.unsent
    rw [List.append_assoc, ih, unsent_advance, List.take_append_drop]

/-- A call leaves the client reading, or in the state it was in. -/
theorem onWritable_state (client : Client) (out : Outgoing) :
    (client.onWritable out).client.state = .reading ∨
      (client.onWritable out).client.state = client.state :=
  onWritable_induction (P := fun client flushed =>
    flushed.client.state = .reading ∨ flushed.client.state = client.state)
    (fun _ _ => .inl rfl) (fun _ _ _ => .inr rfl) (fun _ _ _ _ _ ih => ih) client out

/-- A client is tidy after `on_writable`, whatever `send` did. -/
theorem tidy_onWritable (h : client.Tidy) (out : Outgoing) :
    (client.onWritable out).client.Tidy := by
  -- in the loop the state may still be `Writing` with nothing left to send
  refine onWritable_induction (P := fun client flushed =>
    client.writeOffset ≤ client.writeBuf.length → client.state ≠ .closing →
      (client.state = .reading → client.unsent = []) → flushed.client.Tidy)
    ?_ ?_ ?_ client out h.offset_le h.not_closing h.reading_iff.mp
  · intro client _ _ _ _
    constructor
    · exact Nat.le_refl 0
    · exact iff_of_true rfl rfl
    · exact fun hstate => by cases hstate
  · intro client stays hunsent hle hclosing hreading
    constructor
    · exact hle
    · exact iff_of_false (fun hstate => hunsent (hreading hstate)) hunsent
    · exact hclosing
  · intro client n flushed hunsent hn ih hle hclosing hreading
    have hlen : client.unsent.length = client.writeBuf.length - client.writeOffset :=
      List.length_drop
    refine ih ?_ hclosing fun hstate => absurd (hreading hstate) hunsent
    show client.writeOffset + n ≤ client.writeBuf.length
    omega

end Client

/-! ## Runs -/

/-- A call on the writing half of a connection; replies are not empty. -/
inductive OutputCall where
  /-- `Client::enqueue_response` -/
  | enqueue (data : Bytes) (nonempty : data ≠ [])
  /-- `Client::on_writable` -/
  | writable (out : Outgoing)

/-- A client with a record of the replies enqueued and the bytes `send` took. -/
structure Output where
  client : Client := {}
  enqueued : List Bytes := []
  sent : Bytes := []

namespace Output

/-- One call; `false` if it failed. -/
def step : OutputCall → Output → Bool × Output
  | .enqueue data _, o =>
    (true, { o with
      client := o.client.enqueueResponse data
      enqueued := o.enqueued ++ [data] })
  | .writable out, o =>
    let flushed := o.client.onWritable out
    (flushed.stays, { o with client := flushed.client, sent := o.sent ++ flushed.sent })

/-- Calls in order; a failure ends the run. -/
def run : List OutputCall → Output → Output
  | [], o => o
  | call :: rest, o =>
    let (stays, o) := o.step call
    if stays then run rest o else o

/-- Sent and unsent bytes are the enqueued replies, and the client is tidy. -/
structure Intact (o : Output) : Prop where
  stream : o.sent ++ o.client.unsent = o.enqueued.flatten
  tidy : o.client.Tidy

/-- **One call** keeps the stream intact. -/
theorem intact_step (call : OutputCall) {o : Output} (h : o.Intact) : (o.step call).2.Intact := by
  cases call with
  | enqueue data hdata =>
    constructor
    · show o.sent ++ (o.client.enqueueResponse data).unsent = (o.enqueued ++ [data]).flatten
      rw [Client.unsent_enqueueResponse h.tidy, ← List.append_assoc, h.stream,
        List.flatten_append, List.flatten_singleton]
    · exact Client.tidy_enqueueResponse h.tidy hdata
  | writable out =>
    constructor
    · show (o.sent ++ _) ++ (o.client.onWritable out).client.unsent = o.enqueued.flatten
      rw [List.append_assoc, Client.unsent_onWritable, h.stream]
    · exact Client.tidy_onWritable h.tidy out

/-- Any calls, by induction on them. -/
theorem intact_run (calls : List OutputCall) {o : Output} (h : o.Intact) :
    (run calls o).Intact := by
  induction calls generalizing o with
  | nil => exact h
  | cons call rest ih =>
    show (if (o.step call).1 then run rest (o.step call).2 else (o.step call).2).Intact
    split_ifs
    · exact ih (intact_step call h)
    · exact intact_step call h

end Output

/-- **The reply stream is intact.** After any calls, in any order and with any `send`
outcomes: the bytes sent, followed by the write buffer from the offset on, are the
enqueued replies in order; the offset is within the buffer; and the client is
reading exactly if all that was enqueued has been sent. -/
theorem reply_stream_intact (calls : List OutputCall) :
    let o := Output.run calls {}
    o.sent ++ o.client.writeBuf.drop o.client.writeOffset = o.enqueued.flatten ∧
    o.client.writeOffset ≤ o.client.writeBuf.length ∧
    (o.client.state = .reading ↔ o.sent = o.enqueued.flatten) := by
  have h : (Output.run calls {}).Intact := Output.intact_run calls ⟨rfl, Client.tidy_new⟩
  refine ⟨h.stream, h.tidy.offset_le, h.tidy.reading_iff.trans ?_⟩
  rw [← h.stream]
  exact List.self_eq_append_right.symm

/-- Back-pressure: a reply is enqueued while another one is half sent. -/
example :
    let o := Output.run [.enqueue [1, 2, 3] (by decide), .writable (.taken 1 .wouldBlock),
      .enqueue [4] (by decide), .writable (.taken 0 .nothing)] {}
    o.sent = [1, 2, 3] ∧ o.client.unsent = [4] := by
  decide

end Redix
