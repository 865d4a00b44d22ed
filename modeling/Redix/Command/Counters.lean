import Redix.Base.Simulation
import Redix.Command.Effects
import Redix.Resp.Grammar

/-!
# Counters

`INCR`, `INCRBY`, `DECR` and `DECRBY` against a reference that keeps an unbounded integer
and refuses a step that leaves the 64-bit range.

- `Counter`: what a counter can be, each with the text that is stored for it;
- `count_run`: one step on a counter's entry is one of the reference;
- `counters_are_exact`: whole runs, and what happens on a string that is no counter.
-/

namespace Redix

/-! ## The reference -/

/-- A counter: absent, or a number and a text that denotes it. -/
inductive Counter where
  | absent
  | stored (value : Int) (text : Bytes) (htext : Decimal.Numeral true text value)
    (hrange : InRange value)

namespace Counter

/-- An absent counter counts as zero. -/
def value : Counter → Int
  | absent => 0
  | stored value _ _ _ => value

/-- Add a number: the sum and the counter with its canonical text, or no answer and the
counter as it was. -/
def add (counter : Counter) (delta : Int) : Option Int × Counter :=
  if h : InRange (counter.value + delta) then
    (some (counter.value + delta),
      .stored _ (Decimal.print (counter.value + delta)) (Decimal.numeral_print _) h)
  else (none, counter)

/-- The entry under a counter's key: none, or a string with the text. -/
def In : Counter → Option Entry → Prop
  | absent, o => o = none
  | stored _ text _ _, o => ∃ deadline, o = some ⟨.string text, deadline⟩

end Counter

/-- A step of a counter. -/
inductive CounterOp where
  | incr
  | incrby (arg : Bytes) (delta : Int64) (h : parseI64 arg = some delta)
  | decr
  | decrby (arg : Bytes) (delta : Int64) (h : parseI64 arg = some delta)

namespace CounterOp

/-- The step as a command on a key. -/
def command (key : Bytes) : CounterOp → Command
  | incr => ⟨ascii "INCR", [key]⟩
  | incrby arg _ _ => ⟨ascii "INCRBY", [key, arg]⟩
  | decr => ⟨ascii "DECR", [key]⟩
  | decrby arg _ _ => ⟨ascii "DECRBY", [key, arg]⟩

/-- What it adds. -/
def delta : CounterOp → Int
  | incr => 1
  | incrby _ delta _ => delta.toInt
  | decr => -1
  | decrby _ delta _ => -delta.toInt

/-- The reference. -/
def apply (op : CounterOp) (counter : Counter) : Option Int × Counter := counter.add op.delta

/-- The reply for an answer of the reference. -/
def shown : Option Int → Bytes
  | some n => ascii ":" ++ Decimal.print n ++ crlf
  | none => integerError

/-- The write that its command parses to. -/
def update : CounterOp → Update
  | incr => .up 1
  | incrby _ delta _ => .up delta
  | decr => .down 1
  | decrby _ delta _ => .down delta

/-- A step at a clock reading. -/
def serve (key : Bytes) (step : UInt64 × CounterOp) (s : Store) : Bytes × Store :=
  dispatch step.1 (step.2.command key) s

end CounterOp

/-! ## One step -/

variable {now : UInt64} {s : Store} {key : Bytes} {o : Option Entry} {counter : Counter}

theorem int64?_eq (n : Int) : int64? n = if InRange n then some (.ofInt n) else none := by
  unfold int64?
  by_cases h : InRange n
  · have hin : ¬ (n > 2 ^ 63 - 1 ∨ n < -2 ^ 63) := by
      unfold InRange at h
      omega
    rw [if_pos h, if_neg hin]
  · have hout : n > 2 ^ 63 - 1 ∨ n < -2 ^ 63 := by
      unfold InRange at h
      omega
    rw [if_neg h, if_pos hout]

theorem int64?_toInt (n : Int64) : int64? n.toInt = some n := by
  rw [int64?_eq, if_pos (inRange_toInt n), Int64.ofInt_toInt]

/-- A numeral in range is read as its number. -/
theorem parseI64_numeral {text : Bytes} {value : Int} (htext : Decimal.Numeral true text value)
    (hrange : InRange value) : parseI64 text = some (.ofInt value) := by
  rw [parseI64_eq_some, IntText, toInt_ofInt hrange]
  exact htext

/-- A step as an update: its result for a missing key, and on a number. -/
theorem CounterOp.update_eq (op : CounterOp) :
    ∃ initial next, op.update = .count initial next ∧ initial = int64? (0 + op.delta) ∧
      ∀ current : Int64, next current = int64? (current.toInt + op.delta) := by
  have hone : (1 : Int64).toInt = 1 := by decide
  cases op with
  | incr => exact ⟨_, _, rfl, rfl, fun current => by rw [hone]; rfl⟩
  | incrby arg delta h =>
    exact ⟨_, _, rfl, by rw [CounterOp.delta, Int.zero_add, int64?_toInt], fun current => rfl⟩
  | decr => exact ⟨_, _, rfl, by rw [hone]; rfl, fun current => by rw [hone]; rfl⟩
  | decrby arg delta h =>
    exact ⟨_, _, rfl, by rw [CounterOp.delta, ← Int.sub_eq_add_neg],
      fun current => by rw [CounterOp.delta, ← Int.sub_eq_add_neg]⟩

/-- A step on the entry of a counter. -/
theorem count_run (op : CounterOp) (h : counter.In o) : ∃ reply o',
    op.update.run o = (reply, some o') ∧ reply.bytes = CounterOp.shown (op.apply counter).1 ∧
    (op.apply counter).2.In o' ∧ Outlives o o' := by
  obtain ⟨initial, next, hupdate, hinitial, hnext⟩ := op.update_eq
  rw [hupdate, CounterOp.apply, Counter.add]
  cases counter with
  -- a missing key counts from zero
  | absent =>
    obtain rfl : o = none := h
    have hvalue : Counter.absent.value + op.delta = 0 + op.delta := rfl
    by_cases hrange : InRange (0 + op.delta)
    · rw [int64?_eq, if_pos hrange] at hinitial
      simp only [Update.run, onType, hinitial, hvalue, dif_pos hrange]
      refine ⟨_, _, rfl, ?_, ⟨0, ?_⟩, outlives_noDeadline none _⟩
      · show respInteger _ = _
        rw [respInteger, toInt_ofInt hrange]
        rfl
      · rw [toInt_ofInt hrange]
    · rw [int64?_eq, if_neg hrange] at hinitial
      simp only [Update.run, onType, hinitial, hvalue, dif_neg hrange]
      exact ⟨_, _, rfl, rfl, rfl, outlives_self none⟩
  -- the text need not be canonical; what is written back is
  | stored value text htext hvalue =>
    obtain ⟨deadline, rfl⟩ := h
    have hget : stringValue.get? (.string text) = some text := rfl
    have hstep : (parseI64 text).bind next = int64? (value + op.delta) := by
      rw [parseI64_numeral htext hvalue, Option.bind_some, hnext, toInt_ofInt hvalue]
    have hsum : (Counter.stored value text htext hvalue).value + op.delta =
        value + op.delta := rfl
    by_cases hrange : InRange (value + op.delta)
    · rw [int64?_eq, if_pos hrange] at hstep
      simp only [Update.run, onType, hget, hstep, hsum, dif_pos hrange]
      refine ⟨_, _, rfl, ?_, ⟨deadline, ?_⟩, outlives_value _ _ deadline⟩
      · show respInteger _ = _
        rw [respInteger, toInt_ofInt hrange]
        rfl
      · rw [toInt_ofInt hrange]
    · rw [int64?_eq, if_neg hrange] at hstep
      simp only [Update.run, onType, hget, hstep, hsum, dif_neg hrange]
      exact ⟨_, _, rfl, rfl, ⟨deadline, rfl⟩, outlives_self _⟩

/-! ## Runs -/

/-- A step is a write to its key. -/
theorem dispatch_counter (now : UInt64) (op : CounterOp) (s : Store) (key : Bytes) :
    dispatch now (op.command key) s = served now s key op.update.run := by
  cases op with
  | incr =>
    have hrow : specTable.lookup (ascii "INCR") = some .incr := rfl
    exact dispatch_update hrow rfl
  | incrby arg delta h =>
    have hrow : specTable.lookup (ascii "INCRBY") = some .incrby := rfl
    have hparse : oneArg (signed Update.up) [arg] = .ok (.up delta) := by
      rw [oneArg, signed, h]
    exact dispatch_update hrow hparse
  | decr =>
    have hrow : specTable.lookup (ascii "DECR") = some .decr := rfl
    exact dispatch_update hrow rfl
  | decrby arg delta h =>
    have hrow : specTable.lookup (ascii "DECRBY") = some .decrby := rfl
    have hparse : oneArg (signed Update.down) [arg] = .ok (.down delta) := by
      rw [oneArg, signed, h]
    exact dispatch_update hrow hparse

/-- The key holds the counter, at every clock reading of a set: no deadline passes between
them. -/
def HoldsCounter (clock : UInt64 → Prop) (key : Bytes) (s : Store) (counter : Counter) : Prop :=
  ∃ o, (∀ now, clock now → findLive now s.data key = o) ∧ counter.In o

/-- **One step of the simulation.** -/
theorem dispatch_holdsCounter {clock : UInt64 → Prop} (op : CounterOp) (hnow : clock now)
    (h : HoldsCounter clock key s counter) :
    (dispatch now (op.command key) s).1 = CounterOp.shown (op.apply counter).1 ∧
      HoldsCounter clock key (dispatch now (op.command key) s).2 (op.apply counter).2 := by
  obtain ⟨o, hsteady, hin⟩ := h
  obtain ⟨reply, o', hrun, hreply, hin', houtlives⟩ := count_run op hin
  rw [dispatch_counter, served, hsteady now hnow, hrun]
  refine ⟨hreply, o', fun later hlater => ?_, hin'⟩
  have hlive : o.filter (alive later) = o := by
    rw [← hsteady later hlater, filter_findLive]
  show findLive later (s.data.put key o') key = o'
  rw [findLive_eq, FlatMap.find?_put_self, houtlives later hlive]

/-- The store simulates the reference. -/
def counterSimulation (clock : UInt64 → Prop) (key : Bytes) :
    Simulates (CounterOp.serve key) CounterOp.apply where
  valid step := clock step.1
  op := Prod.snd
  shown := CounterOp.shown
  related := HoldsCounter clock key
  step_eq {step _ _} hnow h := dispatch_holdsCounter step.2 hnow h

/-! ## Other strings -/

/-- A step on a string that is no number in range is refused, and nothing changes. -/
theorem dispatch_noCounter {e : Entry} {text : Bytes} (op : CounterOp)
    (hlive : findLive now s.data key = some e) (hstring : e.value = .string text)
    (hother : ∀ value, Decimal.Numeral true text value → ¬ InRange value) :
    dispatch now (op.command key) s = (integerError, s) := by
  have hparse : parseI64 text = none := by
    cases hread : parseI64 text with
    | none => rfl
    | some n => exact absurd (inRange_toInt n) (hother n.toInt (parseI64_eq_some.mp hread))
  have hrun : op.update.run (some e) = (.notInteger, some (some e)) := by
    obtain ⟨initial, next, hupdate, -⟩ := op.update_eq
    obtain ⟨value, deadline⟩ := e
    obtain rfl : value = .string text := hstring
    have hget : stringValue.get? (.string text) = some text := rfl
    rw [hupdate]
    simp only [Update.run, onType, hget, hparse, Option.bind_none]
  have hfind : s.data.find? key = some e := find?_of_findLive hlive
  rw [dispatch_counter, served, hlive, hrun]
  show (Reply.notInteger.bytes, (⟨s.data.put key (some e)⟩ : Store)) = _
  rw [FlatMap.put_find? s.data hfind]
  rfl

/-- **Counters are exact.** In any run of `INCR`, `INCRBY`, `DECR` and `DECRBY` on a key, at
clock readings between which no deadline of the key passes: if the key is not live, or holds a
string that denotes a number in range, then the replies and what is left are those of the
reference; if it holds any other string, every step is refused and nothing changes. -/
theorem counters_are_exact (clock : UInt64 → Prop) (key : Bytes)
    (steps : List (UInt64 × CounterOp)) (hsteps : ∀ step ∈ steps, clock step.1) (s : Store) :
    (∀ counter, HoldsCounter clock key s counter →
      let reference := runSteps CounterOp.apply (steps.map Prod.snd) counter
      (runSteps (CounterOp.serve key) steps s).1 = reference.1.map CounterOp.shown ∧
        HoldsCounter clock key (runSteps (CounterOp.serve key) steps s).2 reference.2) ∧
    ∀ e text, (∀ now, clock now → findLive now s.data key = some e) → e.value = .string text →
      (∀ value, Decimal.Numeral true text value → ¬ InRange value) →
      runSteps (CounterOp.serve key) steps s = (steps.map fun _ => integerError, s) := by
  refine ⟨fun counter h => (counterSimulation clock key).run_eq hsteps h, ?_⟩
  intro e text hlive hstring hother
  -- a text that is no number in range is left as it is, so every step fails alike
  induction steps with
  | nil => rfl
  | cons step rest ih =>
    obtain ⟨hfirst, hrest⟩ := List.forall_mem_cons.mp hsteps
    have hstep : CounterOp.serve key step s = (integerError, s) :=
      dispatch_noCounter step.2 (hlive step.1 hfirst) hstring hother
    simp only [runSteps, hstep, ih hrest, List.map_cons]

/-- A number with leading zeros, and a delta whose negation is out of range. -/
theorem counters_are_exact_decrby :
    let steps : List (UInt64 × CounterOp) := [
      (2, .incr),
      (3, .decrby (ascii "-9223372036854775808") (-9223372036854775808) (by decide)),
      (3, .incrby (ascii "9") 9 (by decide))]
    let s := execAll [(1, ⟨ascii "SET", [ascii "k", ascii "-007", ascii "EX", ascii "5"]⟩)]
      Store.empty
    (runSteps (CounterOp.serve (ascii "k")) steps s).1 =
      [ascii ":-6" ++ crlf, ascii ":9223372036854775802" ++ crlf, integerError] := by
  intro steps s
  have htext : Decimal.Numeral true (ascii "-007") (-7) :=
    parseI64_eq_some.mp (by decide : parseI64 (ascii "-007") = some (-7))
  have hheld : HoldsCounter (fun now => now = 2 ∨ now = 3) (ascii "k") s
      (.stored (-7) (ascii "-007") htext (by decide)) := by
    refine ⟨some ⟨.string (ascii "-007"), 5001⟩, fun now hnow => ?_, 5001, rfl⟩
    rcases hnow with rfl | rfl
    · decide
    · decide
  exact ((counters_are_exact _ (ascii "k") steps (by decide) s).1 _ hheld).1.trans rfl

end Redix
