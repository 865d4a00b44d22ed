import Redix.Command.Effects

/-!
# Runs of the server's store

Commands arrive one after another, each at its own clock reading, and between
them the background sweep may run.

- `lazy_eq_eager`: a run of the store cannot be told from a run of a reference
  store that physically removes every expired entry before each command.
- `Reachable`, `Reachable.nonEmpty`: no run leaves an empty collection behind;
- `no_empty_collections`: so every key that is there has a size to report.
-/

namespace Redix

open Keyspace

variable {now : UInt64} {s : Store}

/-- What can happen to the store. -/
inductive Event where
  | command (cmd : Command)
  | sweep

/-- The reply to an event, if it has one, and the store after it. -/
def Event.step (now : UInt64) : Event → Store → Option Bytes × Store
  | command cmd, s =>
    let (reply, s) := dispatch now cmd s
    (some reply, s)
  | sweep, s => (none, s.sweepExpired now)

/-! ## Lazy and eager expiry -/

/-- The store without its expired entries. -/
def Store.purged (now : UInt64) (s : Store) : Store := ⟨s.live now⟩

/-- The reference: expired entries are removed before each command, and there is
nothing left for a sweep to do. -/
def Event.eagerStep (now : UInt64) : Event → Store → Option Bytes × Store
  | command cmd, s => (command cmd).step now (s.purged now)
  | sweep, s => (none, s)

/-- A run: clock readings and events. -/
abbrev Trace := List (UInt64 × Event)

/-- The clock does not run backwards. -/
def Trace.Clocked (trace : Trace) : Prop := (trace.map Prod.fst).Pairwise (· ≤ ·)

/-- What a run shows, step by step: the reply, and the live content afterwards. -/
def observe (step : UInt64 → Event → Store → Option Bytes × Store) :
    Trace → Store → List (Option Bytes × DataMap)
  | [], _ => []
  | (now, event) :: rest, s =>
    let (reply, s) := step now event s
    (reply, s.live now) :: observe step rest s

/-- A purge leaves the live content. -/
theorem live_purged (now : UInt64) (s : Store) : (s.purged now).live now = s.live now :=
  purge_purge (fun _ h => h) s.data

/-- Stores with equal live content are indistinguishable to a command. -/
theorem dispatch_congr {s s' : Store} (cmd : Command) (h : s.live now = s'.live now) :
    (dispatch now cmd s).1 = (dispatch now cmd s').1 ∧
    (dispatch now cmd s).2.live now = (dispatch now cmd s').2.live now := by
  rcases dispatch_cases now cmd with ⟨-, hrun⟩ | ⟨spec, p, -, -, hrun⟩
  · rw [hrun, hrun]
    exact ⟨rfl, h⟩
  · obtain ⟨hreply, hdata⟩ := Program.run_congr p h
    rw [hrun, hrun]
    exact ⟨congrArg Reply.bytes hreply, hdata⟩

/-- One step of the simulation: from stores with equal live content, equal
replies and again equal live content. -/
theorem eagerStep_congr {s s' : Store} (event : Event) (h : s.live now = s'.live now) :
    (event.step now s).1 = (event.eagerStep now s').1 ∧
    (event.step now s).2.live now = (event.eagerStep now s').2.live now := by
  cases event with
  | command cmd =>
    obtain ⟨hreply, hlive⟩ := dispatch_congr cmd (h.trans (live_purged now s').symm)
    exact ⟨congrArg some hreply, hlive⟩
  | sweep => exact ⟨rfl, (live_sweepExpired now s).trans h⟩

/-- **Any run**, from stores with the same live content, by induction on it. -/
theorem observe_congr {trace : Trace} (hclock : trace.Clocked) :
    ∀ {t : UInt64} {s s' : Store}, (∀ e ∈ trace, t ≤ e.1) → s.live t = s'.live t →
      observe Event.step trace s =
        observe Event.eagerStep trace s' := by
  induction trace with
  | nil => exact fun _ _ => rfl
  | cons e rest ih =>
    intro t s s' ht h
    obtain ⟨now, event⟩ := e
    obtain ⟨hlater, hrest⟩ := List.pairwise_cons.mp hclock
    have hnow : t ≤ now := ht _ List.mem_cons_self
    -- what is live now was live at the step before
    have hlive : s.live now = s'.live now := by
      rw [← purge_live hnow, h, purge_live hnow]
    obtain ⟨hreply, hafter⟩ := eagerStep_congr event hlive
    simp only [observe, hreply, hafter]
    rw [ih hrest (fun e he => hlater e.1 (List.mem_map_of_mem he)) hafter]

/-- **Lazy expiry is indistinguishable from eager expiry.** With a clock that does
not run backwards, commands and sweeps in any order: the same replies, and after
every step the same live content. -/
theorem lazy_eq_eager (trace : Trace) (hclock : trace.Clocked) :
    observe Event.step trace Store.empty =
      observe Event.eagerStep trace Store.empty :=
  observe_congr hclock (fun _ _ => UInt64.zero_le) rfl

/-- A key expires, is swept, and is written again. -/
theorem lazy_eq_eager_set :
    let trace : Trace := [
      (1, .command ⟨ascii "SET", [ascii "k", ascii "7", ascii "PX", ascii "3"]⟩),
      (5, .command ⟨ascii "GET", [ascii "k"]⟩), (6, .sweep),
      (6, .command ⟨ascii "INCR", [ascii "k"]⟩)]
    observe Event.step trace Store.empty =
      observe Event.eagerStep trace Store.empty :=
  lazy_eq_eager _ (by unfold Trace.Clocked; decide)

/-! ## Reachable stores -/

/-- The stores that commands and sweeps lead to, at whatever clock readings. -/
inductive Reachable : Store → Prop
  | empty : Reachable Store.empty
  | step {s : Store} (now : UInt64) (event : Event) (h : Reachable s) :
    Reachable (event.step now s).2

/-- No entry holds an empty collection. -/
def Store.NonEmpty (s : Store) : Prop := ∀ key, ∀ e ∈ s.data.find? key, e.NonEmpty

/-- **One command** leaves no empty collection behind. -/
theorem dispatch_nonEmpty (cmd : Command) (h : s.NonEmpty) :
    (dispatch now cmd s).2.NonEmpty := by
  rcases dispatch_cases now cmd with ⟨-, hrun⟩ | ⟨spec, p, -, hasks, hrun⟩
  · rw [hrun]
    exact h
  · rw [hrun]
    exact Program.run_keeps p hasks.nonEmpty h

/-- The sweep writes nothing: what is there after it was there before. -/
theorem sweepLoop_find? (now : UInt64) :
    ∀ (visits : Nat) (entries : List (Bytes × Entry)) (data : DataMap) (key : Bytes),
      ∀ e ∈ (Store.sweepLoop now visits entries data).find? key, e ∈ data.find? key
  | 0, _, _, _ => fun _ h => h
  | _ + 1, [], _, _ => fun _ h => h
  | visits + 1, first :: rest, data, key => by
    intro e h
    have ih := sweepLoop_find? now visits rest _ key e h
    -- the sweep only erases
    split_ifs at ih
    · rw [FlatMap.find?_erase] at ih
      split_ifs at ih
      · cases ih
      · exact ih
    · exact ih

/-- One step leaves no empty collection behind. -/
theorem Event.step_nonEmpty (event : Event) (h : s.NonEmpty) :
    (event.step now s).2.NonEmpty := by
  cases event with
  | command cmd => exact dispatch_nonEmpty cmd h
  | sweep => exact fun key e he => h key e (sweepLoop_find? now 20 _ _ key e he)

/-- No run leaves an empty collection behind. -/
theorem Reachable.nonEmpty (h : Reachable s) : s.NonEmpty := by
  induction h with
  | empty => rintro key e ⟨⟩
  | step now event _ ih => exact event.step_nonEmpty ih

/-! ### What the commands report -/

/-- Two simple strings are told apart. -/
theorem simpleString_inj {a b : Bytes} (h : simpleString a = simpleString b) : a = b := by
  unfold simpleString at h
  rw [List.append_assoc, List.append_assoc] at h
  exact List.append_cancel_right (List.append_cancel_left h)

/-- No type is named like the one of a missing key. -/
theorem ValueType.name_ne_none (T : ValueType) : ascii "none" ≠ T.name := by
  cases T <;> simp [name]

/-- Two types are told apart by their names. -/
theorem ValueType.name_inj {T T' : ValueType} (h : T.name = T'.name) : T = T' := by
  cases T <;> cases T' <;> simp [name] at h ⊢

/-- `TYPE` names a type only for a live entry of that type. -/
theorem findLive_of_type {key : Bytes} {T : ValueType}
    (h : (dispatch now ⟨ascii "TYPE", [key]⟩ s).1 = simpleString T.name) :
    ∃ e, findLive now s.data key = some e ∧ e.value.type = T := by
  have hrow : specTable.lookup (ascii "TYPE") = some .type := rfl
  rw [dispatch_eq hrow, Spec.type, serve_look] at h
  change (typeReply (findLive now s.data key)).bytes = _ at h
  cases hlive : findLive now s.data key with
  | none =>
    rw [hlive] at h
    exact absurd (simpleString_inj h) T.name_ne_none
  | some e =>
    rw [hlive] at h
    exact ⟨e, rfl, ValueType.name_inj (simpleString_inj h)⟩

/-- A command that reports a size reports it of the live data. -/
theorem dispatch_size {α : Type} {name key : Bytes} {K : ValueKind α} {size : α → Nat}
    {e : Entry} {d : α}
    (hrow : specTable.lookup name = some (.look fun _ => noArgs (.count K size)))
    (hlive : findLive now s.data key = some e) (hd : K.get? e.value = some d) :
    (dispatch now ⟨name, [key]⟩ s).1 = respCount (size d) := by
  rw [dispatch_eq hrow, serve_look]
  show ((Look.count K size).run (findLive now s.data key)).bytes = _
  rw [hlive]
  simp only [Look.count, Look.orDefault, Look.run, hd]
  rfl

/-- The data of a live entry of type `T` in a reachable store: its size is
positive, and the size command says so. -/
theorem size_reported {α : Type} {name key : Bytes} {K : ValueKind α} {size : α → Nat}
    (hrow : specTable.lookup name = some (.look fun _ => noArgs (.count K size)))
    (hsize : ∀ d, (K.wrap d).NonEmpty → 0 < size d) (hs : s.NonEmpty)
    (htype : (dispatch now ⟨ascii "TYPE", [key]⟩ s).1 = simpleString K.type.name) :
    ∃ n : Nat, 0 < n ∧ (dispatch now ⟨name, [key]⟩ s).1 = respCount n := by
  obtain ⟨e, hlive, he⟩ := findLive_of_type htype
  cases hget : K.get? e.value with
  | none => exact absurd he ((K.get?_eq_none _).mp hget)
  | some d =>
    have hvalue : e.value = K.wrap d := (K.get?_eq_some _ d).mp hget
    have hmem : e ∈ s.data.find? key := by
      rw [findLive_eq] at hlive
      exact (Option.mem_filter_iff.mp hlive).1
    have hne : (K.wrap d).NonEmpty := hvalue ▸ hs key e hmem
    exact ⟨size d, hsize d hne, dispatch_size hrow hlive hget⟩

/-- **No empty collections.** In every reachable store, every entry that holds a
list, a hash or a set holds a non-empty one, expired or not; so whatever `TYPE`
reports as a list, hash or set, `LLEN`, `HLEN` or `SCARD` reports as non-empty. -/
theorem no_empty_collections {s : Store} (h : Reachable s) :
    (∀ key e, (key, e) ∈ s.data.entries → e.value.NonEmpty) ∧
    ∀ now key,
      ((dispatch now ⟨ascii "TYPE", [key]⟩ s).1 = simpleString (ascii "list") →
        ∃ n : Nat, 0 < n ∧ (dispatch now ⟨ascii "LLEN", [key]⟩ s).1 = respCount n) ∧
      ((dispatch now ⟨ascii "TYPE", [key]⟩ s).1 = simpleString (ascii "hash") →
        ∃ n : Nat, 0 < n ∧ (dispatch now ⟨ascii "HLEN", [key]⟩ s).1 = respCount n) ∧
      ((dispatch now ⟨ascii "TYPE", [key]⟩ s).1 = simpleString (ascii "set") →
        ∃ n : Nat, 0 < n ∧ (dispatch now ⟨ascii "SCARD", [key]⟩ s).1 = respCount n) := by
  refine ⟨fun key e he => h.nonEmpty key e (s.data.mem_entries_iff.mp he),
    fun now key => ⟨fun htype => ?_, fun htype => ?_, fun htype => ?_⟩⟩
  -- by TYPE the value is a list, a hash or a set, and none of these is stored empty
  · exact size_reported rfl (fun _ hd => List.length_pos_iff.mpr hd) h.nonEmpty htype
  · exact size_reported rfl (fun _ hd => FlatMap.size_pos hd) h.nonEmpty htype
  · exact size_reported rfl (fun _ hd => FlatMap.size_pos hd) h.nonEmpty htype

/-- A list is pushed and partly popped. -/
theorem no_empty_collections_list :
    let s := execAll [(1, ⟨ascii "RPUSH", [ascii "q", ascii "a", ascii "b"]⟩),
      (2, ⟨ascii "LPOP", [ascii "q"]⟩)] Store.empty
    ∃ n : Nat, 0 < n ∧ (dispatch 3 ⟨ascii "LLEN", [ascii "q"]⟩ s).1 = respCount n :=
  ((no_empty_collections
    (.step 2 (.command ⟨ascii "LPOP", [ascii "q"]⟩)
      (.step 1 (.command ⟨ascii "RPUSH", [ascii "q", ascii "a", ascii "b"]⟩)
        .empty))).2 3 (ascii "q")).1 (by decide)

end Redix
