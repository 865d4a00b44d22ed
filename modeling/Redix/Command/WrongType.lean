import Redix.Command.Types

/-!
# The wrong-type error

A typed command answers with the wrong-type error exactly when its key is live
and holds a value of another type, whichever way the store reports it: as an
error, as a count of `-1`, or through the check before the set algebra.

`typedCommands` lists the commands with the argument lists that count as well
formed. `typedCommands_demand` ties it to the table of commands, and
`wrong_type_exactly` is the whole statement, with what it means for runs.
-/

namespace Redix

open Keyspace

variable {now : UInt64} {s : Store}

/-! ## Typed commands -/

/-- How many arguments a command takes. -/
inductive Arity where
  | exactly (n : Nat)
  | atLeast (n : Nat)
  /-- A key, and then at least one pair. -/
  | keyAndPairs

/-- The number of arguments is right. -/
def Arity.Accepts : Arity → Nat → Prop
  | exactly n, len => len = n
  | atLeast n, len => n ≤ len
  | keyAndPairs, len => 3 ≤ len ∧ len % 2 = 1

/-- A command on one key of a given type. -/
structure TypedCommand where
  name : Bytes
  type : ValueType
  arity : Arity
  /-- The positions of the arguments that have to be numbers. -/
  numbers : List Nat := []

/-- The arguments have the right number, and the numeric ones parse. -/
def TypedCommand.WellFormed (c : TypedCommand) (args : List Bytes) : Prop :=
  c.arity.Accepts args.length ∧
  ∀ i ∈ c.numbers, ∃ text n, args[i]? = some text ∧ parseI64 text = some n

/-- The commands on one key that demand a type. -/
def typedCommands : List TypedCommand := [
  ⟨ascii "GET", .string, .exactly 1, []⟩,
  ⟨ascii "STRLEN", .string, .exactly 1, []⟩,
  ⟨ascii "APPEND", .string, .exactly 2, []⟩,
  ⟨ascii "GETSET", .string, .exactly 2, []⟩,
  ⟨ascii "INCR", .string, .exactly 1, []⟩,
  ⟨ascii "INCRBY", .string, .exactly 2, [1]⟩,
  ⟨ascii "DECR", .string, .exactly 1, []⟩,
  ⟨ascii "DECRBY", .string, .exactly 2, [1]⟩,
  ⟨ascii "LPUSH", .list, .atLeast 2, []⟩,
  ⟨ascii "RPUSH", .list, .atLeast 2, []⟩,
  ⟨ascii "LPOP", .list, .exactly 1, []⟩,
  ⟨ascii "RPOP", .list, .exactly 1, []⟩,
  ⟨ascii "LRANGE", .list, .exactly 3, [1, 2]⟩,
  ⟨ascii "LLEN", .list, .exactly 1, []⟩,
  ⟨ascii "LINDEX", .list, .exactly 2, [1]⟩,
  ⟨ascii "HSET", .hash, .keyAndPairs, []⟩,
  ⟨ascii "HGET", .hash, .exactly 2, []⟩,
  ⟨ascii "HDEL", .hash, .atLeast 2, []⟩,
  ⟨ascii "HGETALL", .hash, .exactly 1, []⟩,
  ⟨ascii "HEXISTS", .hash, .exactly 2, []⟩,
  ⟨ascii "HLEN", .hash, .exactly 1, []⟩,
  ⟨ascii "HKEYS", .hash, .exactly 1, []⟩,
  ⟨ascii "HVALS", .hash, .exactly 1, []⟩,
  ⟨ascii "SADD", .set, .atLeast 2, []⟩,
  ⟨ascii "SREM", .set, .atLeast 2, []⟩,
  ⟨ascii "SMEMBERS", .set, .exactly 1, []⟩,
  ⟨ascii "SISMEMBER", .set, .exactly 2, []⟩,
  ⟨ascii "SCARD", .set, .exactly 1, []⟩]

/-- On well-formed arguments the row parses an operation on the first one that
demands the type. -/
def Spec.Demands (c : TypedCommand) : Spec → Prop
  | look parse => ∀ now args, c.WellFormed args → ∃ key rest l,
      args = key :: rest ∧ parse now rest = .ok l ∧ l.type? = some c.type
  | update parse => ∀ now args, c.WellFormed args → ∃ key rest u,
      args = key :: rest ∧ parse now rest = .ok u ∧ u.type? = some c.type
  | _ => False

/-- A read without arguments. -/
theorem look_noArgs_demands {c : TypedCommand} {l : Look} (harity : c.arity = .exactly 1)
    (htype : l.type? = some c.type) : (Spec.look fun _ => noArgs l).Demands c := by
  intro now args ⟨hlen, _⟩
  rw [harity] at hlen
  obtain ⟨key, rfl⟩ := List.length_eq_one_iff.mp hlen
  exact ⟨key, [], l, rfl, rfl, htype⟩

/-- A write without arguments. -/
theorem update_noArgs_demands {c : TypedCommand} {u : Update} (harity : c.arity = .exactly 1)
    (htype : u.type? = some c.type) : (Spec.update fun _ => noArgs u).Demands c := by
  intro now args ⟨hlen, _⟩
  rw [harity] at hlen
  obtain ⟨key, rfl⟩ := List.length_eq_one_iff.mp hlen
  exact ⟨key, [], u, rfl, rfl, htype⟩

/-- A read with one argument. -/
theorem look_oneArg_demands {c : TypedCommand} {f : Bytes → Look}
    (harity : c.arity = .exactly 2) (htype : ∀ arg, (f arg).type? = some c.type) :
    (Spec.look fun _ => oneArg fun arg => .ok (f arg)).Demands c := by
  intro now args ⟨hlen, _⟩
  rw [harity] at hlen
  obtain ⟨key, arg, rfl⟩ := List.length_eq_two.mp hlen
  exact ⟨key, [arg], f arg, rfl, rfl, htype arg⟩

/-- A write with one argument. -/
theorem update_oneArg_demands {c : TypedCommand} {f : Bytes → Update}
    (harity : c.arity = .exactly 2) (htype : ∀ arg, (f arg).type? = some c.type) :
    (Spec.update fun _ => oneArg fun arg => .ok (f arg)).Demands c := by
  intro now args ⟨hlen, _⟩
  rw [harity] at hlen
  obtain ⟨key, arg, rfl⟩ := List.length_eq_two.mp hlen
  exact ⟨key, [arg], f arg, rfl, rfl, htype arg⟩

/-- The one number of a command with two arguments. -/
theorem TypedCommand.WellFormed.number {c : TypedCommand} {key arg : Bytes}
    (h : c.WellFormed [key, arg]) (hnumbers : c.numbers = [1]) :
    ∃ n, parseI64 arg = some n := by
  obtain ⟨text, n, htext, hn⟩ := h.2 1 (hnumbers ▸ List.mem_singleton_self 1)
  cases htext
  exact ⟨n, hn⟩

/-- A read with a number. -/
theorem look_signed_demands {c : TypedCommand} {f : Int64 → Look}
    (harity : c.arity = .exactly 2) (hnumbers : c.numbers = [1])
    (htype : ∀ n, (f n).type? = some c.type) :
    (Spec.look fun _ => oneArg (signed f)).Demands c := by
  intro now args hargs
  have hlen := hargs.1
  rw [harity] at hlen
  obtain ⟨key, arg, rfl⟩ := List.length_eq_two.mp hlen
  obtain ⟨n, hn⟩ := hargs.number hnumbers
  exact ⟨key, [arg], f n, rfl, by simp only [oneArg, signed, hn], htype n⟩

/-- A write with a number. -/
theorem update_signed_demands {c : TypedCommand} {f : Int64 → Update}
    (harity : c.arity = .exactly 2) (hnumbers : c.numbers = [1])
    (htype : ∀ n, (f n).type? = some c.type) :
    (Spec.update fun _ => oneArg (signed f)).Demands c := by
  intro now args hargs
  have hlen := hargs.1
  rw [harity] at hlen
  obtain ⟨key, arg, rfl⟩ := List.length_eq_two.mp hlen
  obtain ⟨n, hn⟩ := hargs.number hnumbers
  exact ⟨key, [arg], f n, rfl, by simp only [oneArg, signed, hn], htype n⟩

/-- A write with arguments. -/
theorem update_someArgs_demands {c : TypedCommand} {f : (args : List Bytes) → args ≠ [] → Update}
    (harity : c.arity = .atLeast 2) (htype : ∀ args h, (f args h).type? = some c.type) :
    (Spec.update fun _ => someArgs f).Demands c := by
  intro now args ⟨hlen, _⟩
  rw [harity] at hlen
  match args, hlen with
  | key :: arg :: rest, _ =>
    exact ⟨key, arg :: rest, _, rfl, dif_neg (List.cons_ne_nil arg rest), htype _ _⟩

/-- `HSET` takes pairs. -/
theorem hset_demands : Spec.hset.Demands ⟨ascii "HSET", .hash, .keyAndPairs, []⟩ := by
  rintro now (_ | ⟨key, rest⟩) ⟨⟨hlen, hodd⟩, _⟩
  · cases hlen
  · rw [List.length_cons] at hlen hodd
    exact ⟨key, rest, _, rfl, dif_pos (by omega), rfl⟩

/-- `LRANGE` takes two numbers. -/
theorem lrange_demands : Spec.lrange.Demands ⟨ascii "LRANGE", .list, .exactly 3, [1, 2]⟩ := by
  rintro now args ⟨hlen, hnumbers⟩
  obtain ⟨key, start, stop, rfl⟩ := List.length_eq_three.mp hlen
  obtain ⟨_, first, ⟨⟩, hfirst⟩ := hnumbers 1 (by decide)
  obtain ⟨_, last, ⟨⟩, hlast⟩ := hnumbers 2 (by decide)
  exact ⟨key, [start, stop], _, rfl, by simp only [twoArgs, hfirst, hlast]; rfl, rfl⟩

/-- Each typed command has a row that demands its type. -/
theorem typedCommands_demand : ∀ c ∈ typedCommands,
    ∃ spec, specTable.lookup c.name = some spec ∧ spec.Demands c := by
  simp only [typedCommands, List.forall_mem_cons, List.not_mem_nil, false_imp_iff,
    implies_true, and_true]
  -- one goal for each command; they differ in the form of the parser
  repeat' apply And.intro
  all_goals
    first
    | exact ⟨_, rfl, look_noArgs_demands rfl rfl⟩
    | exact ⟨_, rfl, update_noArgs_demands rfl rfl⟩
    | exact ⟨_, rfl, look_oneArg_demands rfl fun _ => rfl⟩
    | exact ⟨_, rfl, update_oneArg_demands rfl fun _ => rfl⟩
    | exact ⟨_, rfl, look_signed_demands rfl rfl fun _ => rfl⟩
    | exact ⟨_, rfl, update_signed_demands rfl rfl fun _ => rfl⟩
    | exact ⟨_, rfl, update_someArgs_demands rfl fun _ _ => rfl⟩
    | exact ⟨_, rfl, hset_demands⟩
    | exact ⟨_, rfl, lrange_demands⟩

/-! ## Replies -/

/-- Two error lines are told apart. -/
theorem respError_inj {a b : Bytes} (h : respError a = respError b) : a = b := by
  unfold respError at h
  rw [List.append_assoc, List.append_assoc] at h
  exact List.append_cancel_right (List.append_cancel_left h)

/-- No other reply has the bytes of the wrong-type error. -/
theorem bytes_eq_wrongType {r : Reply} : r.bytes = wrongTypeError ↔ r = .wrongType := by
  refine ⟨fun h => ?_, fun h => by rw [h]; rfl⟩
  have herror := Reply.isError_of_bytes (h ▸ rfl : r.bytes.head? = some 45)
  cases r with
  | error message hline =>
    obtain rfl := respError_inj h
    rfl
  | simple | integer | bulk | null | array => cases herror

/-- A row that demands a type, on well-formed arguments. -/
theorem serve_wrongType {c : TypedCommand} {spec : Spec} (h : spec.Demands c) {cmd : Command}
    (hargs : c.WellFormed cmd.args) :
    ∃ key, cmd.args.head? = some key ∧
      ((spec.serve now cmd s).1 = wrongTypeError ↔
        OtherType c.type (findLive now s.data key)) := by
  obtain ⟨name, args⟩ := cmd
  cases spec with
  | look parse =>
    obtain ⟨key, rest, l, rfl, hparse, htype⟩ := h now args hargs
    refine ⟨key, rfl, ?_⟩
    rw [serve_look, hparse]
    exact bytes_eq_wrongType.trans (Look.run_wrongType htype)
  | update parse =>
    obtain ⟨key, rest, u, rfl, hparse, htype⟩ := h now args hargs
    refine ⟨key, rfl, ?_⟩
    rw [serve_update, hparse]
    exact bytes_eq_wrongType.trans (Update.run_wrongType htype)
  | talk | gather | delete | assign | move | survey | flush => exact h.elim

/-- Set algebra: the wrong-type error exactly for some live key that is no set. -/
theorem serve_algebra_wrongType (f : List (Option Entry) → List Bytes) {cmd : Command} :
    ((Spec.gather (algebra f)).serve now cmd s).1 = wrongTypeError ↔
      ∃ key ∈ cmd.args, OtherType .set (findLive now s.data key) := by
  have hany : ((cmd.args.map (findLive now s.data)).any
      fun o => o.any fun e => e.value.type ≠ .set) = true ↔
      ∃ key ∈ cmd.args, OtherType .set (findLive now s.data key) := by
    simp [OtherType, Option.any_eq_true]
  rw [serve_gather]
  by_cases hlen : cmd.atLeast 1
  · rw [if_pos hlen, bytes_eq_wrongType, algebra, ← hany]
    split_ifs with h
    · exact iff_of_true rfl h
    · exact iff_of_false (Reply.ne_wrongType rfl) h
  · -- without keys the arity is wrong, and there is no key to be of another type
    have hnil : cmd.args = [] := List.length_eq_zero_iff.mp (by omega)
    have hreply : wrongArity ≠ wrongTypeError := by decide
    rw [if_neg hlen, hnil]
    refine iff_of_false hreply ?_
    rintro ⟨key, hkey, -⟩
    cases hkey

/-! ## The whole statement -/

/-- **The wrong-type error, exactly when it should be.** For every well-formed
typed command: iff its key is live and holds another type. For `SUNION` and
`SINTER`: iff some listed key is live and no set. And consequently, in every run
the type of a key that is live at both ends differs only if in between the key was
overwritten by `SET`, `MSET` or as the destination of `RENAME`, or was removed or
expired. -/
theorem wrong_type_exactly :
    (∀ c ∈ typedCommands, ∀ cmd : Command, cmd.name = c.name → c.WellFormed cmd.args →
      ∀ now s, ∃ key, cmd.args.head? = some key ∧
        ((dispatch now cmd s).1 = wrongTypeError ↔
          ∃ e, findLive now s.data key = some e ∧ e.value.type ≠ c.type)) ∧
    (∀ cmd : Command, cmd.name = ascii "SUNION" ∨ cmd.name = ascii "SINTER" → ∀ now s,
      ((dispatch now cmd s).1 = wrongTypeError ↔
        ∃ key ∈ cmd.args, ∃ e, findLive now s.data key = some e ∧ e.value.type ≠ .set)) ∧
    (∀ (trace : Trace) (t t' : UInt64) (s : Store) (key : Bytes) (e e' : Entry),
      findLive t s.data key = some e → findLive t' (runStore trace s).data key = some e' →
      e'.value.type ≠ e.value.type → Interrupted t s key e.value.type trace) := by
  refine ⟨fun c hc cmd hname hargs now s => ?_, fun cmd hname now s => ?_,
    fun trace t t' s key e e' => type_change_interrupted trace⟩
  · obtain ⟨spec, hrow, hdemands⟩ := typedCommands_demand c hc
    rw [dispatch_eq (hname ▸ hrow)]
    exact serve_wrongType hdemands hargs
  -- the two that look at all their keys before they answer
  · rcases hname with hname | hname
    · have hrow : specTable.lookup cmd.name = some .sunion := hname ▸ rfl
      rw [dispatch_eq hrow]
      exact serve_algebra_wrongType _
    · have hrow : specTable.lookup cmd.name = some .sinter := hname ▸ rfl
      rw [dispatch_eq hrow]
      exact serve_algebra_wrongType _

/-- A list in the way of `INCR`; and the list is deleted before the counter. -/
theorem wrong_type_exactly_incr :
    let push : Command := ⟨ascii "RPUSH", [ascii "k", ascii "a"]⟩
    let incr : Command := ⟨ascii "INCR", [ascii "k"]⟩
    let s := (dispatch 1 push Store.empty).2
    (dispatch 2 incr s).1 = wrongTypeError ∧
    (dispatch 2 ⟨ascii "SUNION", [ascii "x", ascii "k"]⟩ s).1 = wrongTypeError ∧
    Interrupted 1 s (ascii "k") .list
      [(2, .command ⟨ascii "DEL", [ascii "k"]⟩), (3, .command incr)] := by
  intro push incr s
  have hlive : findLive 2 s.data (ascii "k") = some ⟨.list [ascii "a"], 0⟩ := by decide
  refine ⟨?_, ?_, ?_⟩
  · obtain ⟨key, hkey, hiff⟩ := wrong_type_exactly.1 ⟨ascii "INCR", .string, .exactly 1, []⟩
      (by simp [typedCommands]) incr rfl ⟨rfl, nofun⟩ 2 s
    obtain rfl : ascii "k" = key := Option.some.inj hkey
    exact hiff.mpr ⟨_, hlive, by decide⟩
  · exact (wrong_type_exactly.2.1 _ (.inl rfl) 2 s).mpr
      ⟨ascii "k", by decide, _, hlive, by decide⟩
  · exact wrong_type_exactly.2.2 _ 1 3 s (ascii "k") ⟨.list [ascii "a"], 0⟩
      ⟨.string (ascii "1"), 0⟩ (by decide) (by decide) (by decide)

end Redix
