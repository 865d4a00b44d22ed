import Mathlib.Data.List.Basic
import Mathlib.Data.List.Forall2
import Mathlib.Tactic.SplitIfs

/-!
# Incremental parsers and chunked input

A connection delivers one byte stream in arbitrary pieces; the receiver appends
each piece to a buffer and takes messages off its front until it needs more
input. Whether the cuts can be observed is decided by one law of the parser:
a verdict (`complete` or `error`) once given must not change when the buffer is
extended. `Parser` bundles a parse function with that law and with progress.

- `drain`: take messages off a buffer until the parser waits or fails;
- `feedAll`: feed chunks one by one, draining after each;
- `feedAll_eq_drain`: feeding chunks is draining their concatenation. Two ways
  of cutting the same stream are therefore indistinguishable
  (`feedAll_chunking`);
- `drain_cut`: a stream of messages that is cut off anywhere drains to the
  messages that are there in full.
-/

universe u v

namespace Framing

/-- The result of one parse attempt at the front of a buffer. -/
inductive Outcome (α : Type v) where
  /-- One whole message and the number of bytes it took. -/
  | complete (value : α) (consumed : Nat)
  /-- A message may still come: more input is needed. -/
  | incomplete
  /-- No continuation of the buffer starts with a message. -/
  | error
deriving DecidableEq

/-- A parse function whose verdicts are stable under more input. -/
structure Parser (β : Type u) (α : Type v) where
  /-- One attempt at the front of the buffer. -/
  parse : List β → Outcome α
  /-- Nothing is known before the first byte. -/
  parse_nil : parse [] = .incomplete
  /-- A message takes at least one byte … -/
  consumed_pos : ∀ {b v n}, parse b = .complete v n → 0 < n
  /-- … and no more than there are. -/
  consumed_le : ∀ {b v n}, parse b = .complete v n → n ≤ b.length
  /-- A complete message stays complete. -/
  complete_append : ∀ {b v n}, parse b = .complete v n →
    ∀ more, parse (b ++ more) = .complete v n
  /-- An error stays an error. -/
  error_append : ∀ {b}, parse b = .error → ∀ more, parse (b ++ more) = .error

/-- What draining a buffer yields. -/
structure Drained (β : Type u) (α : Type v) where
  /-- The messages, in order. -/
  values : List α
  /-- The bytes not yet part of a message (none after a failure). -/
  rest : List β
  /-- Whether a malformed message ended the drain. -/
  failed : Bool
deriving DecidableEq

namespace Drained

variable {β : Type u} {α : Type v}

/-- Prefix the messages of a drain. -/
def cons (vs : List α) (d : Drained β α) : Drained β α :=
  { d with values := vs ++ d.values }

/-- Continue a drain on what it left, unless it failed. -/
def andThen (d : Drained β α) (f : List β → Drained β α) : Drained β α :=
  if d.failed then d else (f d.rest).cons d.values

/-- Behind a failure nothing is drained. -/
theorem andThen_failed {d : Drained β α} (h : d.failed) (f : List β → Drained β α) :
    d.andThen f = d := if_pos h

/-- Without a failure the rest is drained next. -/
theorem andThen_open {d : Drained β α} (h : ¬ d.failed) (f : List β → Drained β α) :
    d.andThen f = (f d.rest).cons d.values := if_neg h

/-- Only the continuation on the rest matters. -/
theorem andThen_congr {d : Drained β α} {f g : List β → Drained β α}
    (h : f d.rest = g d.rest) : d.andThen f = d.andThen g := by
  unfold andThen
  rw [h]

/-- What was drained first stays first. -/
theorem cons_andThen (vs : List α) (d : Drained β α) (f : List β → Drained β α) :
    (d.cons vs).andThen f = (d.andThen f).cons vs := by
  by_cases h : d.failed
  · rw [andThen_failed h, andThen_failed (d := d.cons vs) h]
  · rw [andThen_open h, andThen_open (d := d.cons vs) h]
    simp only [cons, List.append_assoc]

/-- It does not matter how three drains are grouped. -/
theorem andThen_assoc (d : Drained β α) (f g : List β → Drained β α) :
    (d.andThen f).andThen g = d.andThen fun rest => (f rest).andThen g := by
  by_cases h : d.failed
  · rw [andThen_failed h, andThen_failed h, andThen_failed h]
  · rw [andThen_open h, andThen_open h, cons_andThen]

end Drained

namespace Parser

variable {β : Type u} {α : Type v} (p : Parser β α)

/-- Take messages off the front until the parser waits or fails. -/
def drain (b : List β) : Drained β α :=
  match _h : p.parse b with
  | .complete v n => (drain (b.drop n)).cons [v]
  | .incomplete => ⟨[], b, false⟩
  | .error => ⟨[], [], true⟩
termination_by b.length
decreasing_by
  have hpos := p.consumed_pos _h
  have hle := p.consumed_le _h
  rw [List.length_drop]
  omega

/-- A complete message is taken from the front. -/
theorem drain_complete {b : List β} {v : α} {n : Nat}
    (h : p.parse b = .complete v n) :
    p.drain b = (p.drain (b.drop n)).cons [v] := by
  rw [drain]
  split <;> simp_all

/-- An incomplete message is left where it is. -/
theorem drain_incomplete {b : List β} (h : p.parse b = .incomplete) :
    p.drain b = ⟨[], b, false⟩ := by
  rw [drain]
  split <;> simp_all

/-- An error ends the draining and empties the buffer. -/
theorem drain_error {b : List β} (h : p.parse b = .error) :
    p.drain b = ⟨[], [], true⟩ := by
  rw [drain]
  split <;> simp_all

/-- A property of every drain follows the parser's verdicts: one case for a
message taken off, one for waiting, one for failing. -/
theorem drain_induction {motive : List β → Prop}
    (complete : ∀ b v n, p.parse b = .complete v n → motive (b.drop n) → motive b)
    (incomplete : ∀ b, p.parse b = .incomplete → motive b)
    (error : ∀ b, p.parse b = .error → motive b) (b : List β) : motive b := by
  -- on the length of what is left: each message takes at least one element
  induction hlen : b.length using Nat.strongRecOn generalizing b with
  | ind len ih =>
    cases h : p.parse b with
    | complete v n =>
      have hpos := p.consumed_pos h
      have hle := p.consumed_le h
      refine complete b v n h (ih (b.drop n).length ?_ _ rfl)
      rw [List.length_drop]
      omega
    | incomplete => exact incomplete b h
    | error => exact error b h

/-- The bytes a drain leaves behind are waiting for more input. -/
theorem parse_rest (b : List β) : p.parse (p.drain b).rest = .incomplete := by
  induction b using p.drain_induction with
  | complete b v n h ih => rw [p.drain_complete h]; exact ih
  | incomplete b h => rw [p.drain_incomplete h]; exact h
  | error b h => rw [p.drain_error h]; exact p.parse_nil

/-- **Draining is incremental**: draining `a ++ b` is draining `a`, and then
(unless that failed) draining what it left with `b` appended. -/
theorem drain_append (a b : List β) :
    p.drain (a ++ b) = (p.drain a).andThen fun rest => p.drain (rest ++ b) := by
  -- a verdict stands whatever follows, except that more may be needed
  induction a using p.drain_induction with
  | complete a v n h ih =>
    rw [p.drain_complete (p.complete_append h b), p.drain_complete h,
      List.drop_append_of_le_length (p.consumed_le h), ih, Drained.cons_andThen]
  | incomplete a h =>
    rw [p.drain_incomplete h]
    rfl
  | error a h =>
    rw [p.drain_error (p.error_append h b), p.drain_error h]
    rfl

/-- Feed chunks to a buffer one by one, draining after each; stop at the first
malformed message. -/
def feedAll (b : List β) : List (List β) → Drained β α
  | [] => ⟨[], b, false⟩
  | c :: cs => (p.drain (b ++ c)).andThen fun rest => feedAll rest cs

/-- Feeding chunks in two rounds. -/
theorem feedAll_append (cs cs' : List (List β)) (b : List β) :
    p.feedAll b (cs ++ cs') = (p.feedAll b cs).andThen fun rest => p.feedAll rest cs' := by
  induction cs generalizing b with
  | nil => rfl
  | cons c cs ih =>
    rw [List.cons_append, feedAll, feedAll, Drained.andThen_assoc]
    exact Drained.andThen_congr (ih _)

/-- Feeding chunks to a waiting buffer is draining their concatenation. -/
theorem feedAll_eq_drain (cs : List (List β)) :
    ∀ {b : List β}, p.parse b = .incomplete →
      p.feedAll b cs = p.drain (b ++ cs.flatten) := by
  -- the leftover of a chunk waits in front of the next one
  induction cs with
  | nil =>
    intro b hb
    rw [List.flatten_nil, List.append_nil, p.drain_incomplete hb]
    rfl
  | cons c cs ih =>
    intro b _
    rw [List.flatten_cons, ← List.append_assoc, p.drain_append, feedAll]
    exact Drained.andThen_congr (ih (p.parse_rest _))

/-- **Chunking is unobservable**: two ways of cutting one stream yield the same
messages, the same leftover and the same verdict. -/
theorem feedAll_chunking {cs cs' : List (List β)} (h : cs.flatten = cs'.flatten) :
    p.feedAll [] cs = p.feedAll [] cs' := by
  rw [p.feedAll_eq_drain cs p.parse_nil, p.feedAll_eq_drain cs' p.parse_nil, h]

/-! ### Streams of messages -/

theorem drain_nil : p.drain [] = ⟨[], [], false⟩ := p.drain_incomplete p.parse_nil

/-- A drain that yields no message leaves the buffer as it is. -/
theorem drain_idle {b rest : List β} (h : p.drain b = ⟨[], rest, false⟩) : rest = b := by
  cases hparse : p.parse b with
  | complete v n =>
    rw [p.drain_complete hparse] at h
    exact absurd (congrArg Drained.values h) (List.cons_ne_nil _ _)
  | incomplete =>
    rw [p.drain_incomplete hparse] at h
    exact (congrArg Drained.rest h).symm
  | error =>
    rw [p.drain_error hparse] at h
    exact absurd (congrArg Drained.failed h) nofun

/-- The bytes are one message, whatever follows them. -/
def Reads (msg : List β) (v : α) : Prop := ∀ rest, p.drain (msg ++ rest) = (p.drain rest).cons [v]

variable {p} {msgs : List (List β)} {vs : List α}

/-- Messages one after another are drained one after another. -/
theorem drain_flatten (h : List.Forall₂ p.Reads msgs vs) (rest : List β) :
    p.drain (msgs.flatten ++ rest) = (p.drain rest).cons vs := by
  induction h with
  | nil => rfl
  | cons hmsg _ ih =>
    rw [List.flatten_cons, List.append_assoc, hmsg, ih]
    rfl

/-- The drain of a buffer that goes through without a failure goes through the drain of its
beginning. -/
theorem drain_beginning {b more rest : List β} (h : p.drain (b ++ more) = ⟨vs, rest, false⟩) :
    (p.drain b).failed = false ∧
    (p.drain ((p.drain b).rest ++ more)).cons (p.drain b).values = ⟨vs, rest, false⟩ := by
  rw [p.drain_append] at h
  cases hfailed : (p.drain b).failed with
  | true =>
    rw [Drained.andThen_failed hfailed] at h
    rw [h] at hfailed
    cases hfailed
  | false => exact ⟨rfl, by rwa [Drained.andThen_open (by simp [hfailed])] at h⟩

/-- If the beginning yields all there is, there is nothing after it. -/
theorem eq_nil_of_drain {b more : List β} (h : p.drain (b ++ more) = ⟨vs, [], false⟩)
    (hall : vs.length ≤ (p.drain b).values.length) : more = [] := by
  obtain ⟨-, hrest⟩ := drain_beginning h
  cases hlast : p.drain ((p.drain b).rest ++ more) with
  | mk values rest failed =>
    rw [hlast, Drained.cons, Drained.mk.injEq] at hrest
    obtain ⟨hvalues, rfl, rfl⟩ := hrest
    -- all the values came from `b`, so none is left for `more`
    have hnone : values = [] := by
      have hlength := congrArg List.length hvalues
      simp only [List.length_append] at hlength
      exact List.length_eq_zero_iff.mp (by omega)
    rw [hnone] at hlast
    exact (List.append_eq_nil_iff.mp (p.drain_idle hlast).symm).2

/-- **A stream of messages that is cut off** drains without a failure to the messages that
are before the cut in full. -/
theorem drain_cut (h : List.Forall₂ p.Reads msgs vs) {b more : List β}
    (hcut : msgs.flatten = b ++ more) :
    (p.drain b).failed = false ∧ (p.drain b).values <+: vs ∧
    ∀ k ≤ msgs.length, k ≤ (p.drain b).values.length ↔ (msgs.take k).flatten <+: b := by
  have hdrain {msgs : List (List β)} {vs : List α} (h : List.Forall₂ p.Reads msgs vs) :
      p.drain msgs.flatten = ⟨vs, [], false⟩ := by
    have hall := drain_flatten h []
    rwa [p.drain_nil, List.append_nil, Drained.cons, List.append_nil] at hall
  obtain ⟨hopen, hrest⟩ := drain_beginning (hcut ▸ hdrain h)
  refine ⟨hopen, ⟨_, congrArg Drained.values hrest⟩, fun k hk => ?_⟩
  have htake : List.Forall₂ p.Reads (msgs.take k) (vs.take k) := List.forall₂_take k h
  have hlength : (vs.take k).length = k := by
    rw [← htake.length_eq, List.length_take_of_le hk]
  constructor
  · intro hle
    have hwhole : (msgs.take k).flatten <+: b ++ more := by
      rw [← hcut]
      exact ⟨(msgs.drop k).flatten, by rw [← List.flatten_append, List.take_append_drop]⟩
    rcases List.prefix_or_prefix_of_prefix hwhole (List.prefix_append b more) with
      hdone | ⟨missing, hmissing⟩
    · exact hdone
    · -- all of the `k` messages have been drained, so none of their bytes is missing
      have hnil := eq_nil_of_drain (hmissing ▸ hdrain htake) (by omega)
      rw [hnil, List.append_nil] at hmissing
      exact ⟨[], by rw [List.append_nil, hmissing]⟩
  · rintro ⟨rest, rfl⟩
    rw [drain_flatten htake, Drained.cons, List.length_append, hlength]
    omega

end Parser

end Framing
