import Redix.Base.Observation
import Redix.Command.Runs

/-!
# Keys are isolated from each other

Clients that work on different keys share one store. What the one does is invisible to the
other: its commands are answered, and its keys are left, as if the other's commands and the
sweeps had not been there at all. It takes that neither names keys of the other, and that
there is no `FLUSHDB`. Commands on the whole keyspace (`KEYS`, `DBSIZE`) may come between, but
see all keys.

- `Own`, `Foreign`: the commands on given keys, and those on other keys;
- `step_own`, `step_foreign`: what one step does to the given keys;
- `other_keys_invisible`: runs.
-/

namespace Redix

open Keyspace Observation

variable {F : Bytes → Prop} {now : UInt64} {s s' : Store} {event : Event}

/-! ## One step -/

/-- The command is about keys in `F`. -/
def Own (F : Bytes → Prop) : Event → Prop
  | .command cmd => keyArgs cmd.name ≠ .whole ∧ ∀ key ∈ footprint cmd, F key
  | .sweep => False

instance decidableOwn (F : Bytes → Prop) [DecidablePred F] : DecidablePred (Own F)
  | .command cmd =>
    inferInstanceAs (Decidable (keyArgs cmd.name ≠ .whole ∧ ∀ key ∈ footprint cmd, F key))
  | .sweep => inferInstanceAs (Decidable False)

/-- A sweep, or a command that is about other keys. -/
def Foreign (F : Bytes → Prop) : Event → Prop
  | .command cmd => cmd.name ≠ ascii "FLUSHDB" ∧ ∀ key ∈ footprint cmd, ¬ F key
  | .sweep => True

/-- The same keys in `F` are live, with the same entries. -/
def AgreeOn (F : Bytes → Prop) (now : UInt64) (s s' : Store) : Prop :=
  ∀ key, F key → (s.live now).find? key = (s'.live now).find? key

theorem AgreeOn.mono {later : UInt64} (h : AgreeOn F now s s') (hle : now ≤ later) :
    AgreeOn F later s s' := by
  intro key hkey
  rw [← purge_live hle s, ← purge_live hle s', find?_purge, find?_purge, h key hkey]

/-- **One step of the one**: the same reply, and agreement again. -/
theorem step_own (hown : Own F event) (h : AgreeOn F now s s') :
    (event.step now s).1 = (event.step now s').1 ∧
      AgreeOn F now (event.step now s).2 (event.step now s').2 := by
  cases event with
  | sweep => exact hown.elim
  | command cmd =>
    rcases dispatch_within now hown.1 with hidle | ⟨p, hp, hrun⟩
    · refine ⟨congrArg some ((hidle s).2 s'), ?_⟩
      show AgreeOn F now (dispatch now cmd s).2 (dispatch now cmd s').2
      rwa [(hidle s).1, (hidle s').1]
    have hentry (key : Bytes) (hkey : key ∈ footprint cmd) :
        (s.data.find? key).filter (alive now) = (s'.data.find? key).filter (alive now) := by
      rw [← find?_purge, ← find?_purge]
      exact h key (hown.2 key hkey)
    obtain ⟨hreply, hafter⟩ := Program.run_local_congr p hp hentry
    rw [Event.step, Event.step, hrun, hrun]
    refine ⟨congrArg some (congrArg Reply.bytes hreply), fun key hkey => ?_⟩
    rw [Store.live, Store.live, find?_purge, find?_purge]
    by_cases hmem : key ∈ footprint cmd
    · exact hafter key hmem
    · -- what the command does not name stays as it is in both stores
      show ((p.run (alive now) s.data).2.find? key).filter (alive now) =
        ((p.run (alive now) s'.data).2.find? key).filter (alive now)
      rw [Program.run_frame hmem p hp, Program.run_frame hmem p hp, ← find?_purge, ← find?_purge]
      exact h key hkey

/-- **One step of the other**: nothing happens to the keys. -/
theorem step_foreign (hforeign : Foreign F event) (h : AgreeOn F now s s') :
    AgreeOn F now (event.step now s).2 s' := by
  cases event with
  | sweep =>
    show AgreeOn F now (s.sweepExpired now) s'
    rwa [AgreeOn, live_sweepExpired]
  | command cmd =>
    intro key hkey
    have hframe := dispatch_frame now (fun hmem => hforeign.2 key hmem hkey) hforeign.1 s
    show ((dispatch now cmd s).2.live now).find? key = _
    rw [find?_live, findLive_eq, hframe, ← findLive_eq, ← find?_live, h key hkey]

/-! ## Runs -/

/-- Events of others leave the keys as they are. -/
theorem after_foreign {last : UInt64} {events : Trace} (hfrom : From now events)
    (hforeign : ∀ event ∈ events, Foreign F event.2) (hnow : now ≤ last)
    (hlast : ∀ event ∈ events, event.1 ≤ last) (h : AgreeOn F now s s') :
    AgreeOn F last (after Event.step events s) s' := by
  induction events generalizing now s with
  | nil => exact h.mono hnow
  | cons event rest ih =>
    obtain ⟨hfirst, hrest⟩ := List.forall_mem_cons.mp hforeign
    have hbefore : event.1 ≤ last ∧ ∀ event ∈ rest, event.1 ≤ last := List.forall_mem_cons.mp hlast
    exact ih hfrom.2 hrest hbefore.1 hbefore.2 (step_foreign hfirst (h.mono hfrom.1))

/-- The events about keys in `F`. -/
def ownEvent (F : Bytes → Prop) [DecidablePred F] (event : Event) : Option Event :=
  if Own F event then some event else none

/-- **Commands on other keys are invisible.** Let `F` divide the keys, and let a run have
commands on keys in `F`, commands on other keys, and sweeps, in any order. Then the commands
on keys in `F` get the replies that they get in a run of their own, from any store with the
same keys in `F` live; and the keys in `F` are left as in that run. -/
theorem other_keys_invisible [DecidablePred F] {inputs : Trace} (hfrom : From now inputs)
    (hdivided : ∀ input ∈ inputs, Own F input.2 ∨ Foreign F input.2) (h : AgreeOn F now s s') :
    let own := project (ownEvent F) inputs
    answersTo (ownEvent F) Event.step inputs s = answers Event.step own s' ∧
      ∀ last, now ≤ last → (∀ input ∈ inputs, input.1 ≤ last) →
        AgreeOn F last (after Event.step inputs s) (after Event.step own s') := by
  -- the store with the own inputs alone is the reference, and the two agree on `F`
  obtain ⟨hanswers, hafter⟩ := @refines UInt64 Event Event Store Store (Option Bytes) _ Event.step
    now s (AgreeOn F) Event.step (ownEvent F) (fun _ event => Own F event ∨ Foreign F event)
    (fun hle h => AgreeOn.mono h hle)
    (fun {_ _ _ event own} _ hown h => by
      rw [ownEvent] at hown
      split_ifs at hown with howned
      obtain rfl := Option.some.inj hown
      exact step_own howned h)
    (fun {_ _ _ event} hdivided hown h => by
      rw [ownEvent] at hown
      split_ifs at hown with howned
      exact step_foreign (hdivided.resolve_left howned) h)
    inputs hfrom hdivided s' h
  exact ⟨hanswers, fun last hnow hlast => hafter hnow hlast⟩

/-- Two clients, one with keys that start with `a`. The other's `FLUSHDB` would show. -/
theorem other_keys_invisible_lists :
    let inputs : Trace := [
      (1, .command ⟨ascii "RPUSH", [ascii "a1", ascii "x", ascii "y"]⟩),
      (2, .command ⟨ascii "SET", [ascii "b", ascii "7", ascii "PX", ascii "1"]⟩), (4, .sweep),
      (4, .command ⟨ascii "KEYS", [ascii "*"]⟩), (5, .command ⟨ascii "INCR", [ascii "b"]⟩),
      (6, .command ⟨ascii "LPOP", [ascii "a1"]⟩)]
    answersTo (ownEvent fun key => key.head? = some 97) Event.step inputs .empty =
      [some (respInteger 2), some (respBulk (ascii "x"))] := by
  intro inputs
  have hdivided : ∀ input ∈ inputs, Own (fun key => key.head? = some 97) input.2 ∨
      Foreign (fun key => key.head? = some 97) input.2 := by
    refine List.forall_mem_cons.mpr ⟨.inl (by decide), List.forall_mem_cons.mpr ⟨.inr ?_, ?_⟩⟩
    · exact ⟨by decide, by decide⟩
    refine List.forall_mem_cons.mpr ⟨.inr trivial, List.forall_mem_cons.mpr ⟨.inr ?_, ?_⟩⟩
    · exact ⟨by decide, by decide⟩
    refine List.forall_mem_cons.mpr ⟨.inr ?_, List.forall_mem_singleton.mpr (.inl (by decide))⟩
    exact ⟨by decide, by decide⟩
  have hanswers := (@other_keys_invisible (fun key => key.head? = some 97) 1 .empty .empty _ inputs
    ⟨by decide, by decide, by decide, by decide, by decide, by decide, trivial⟩ hdivided
    fun _ _ => rfl).1
  rw [hanswers]
  rfl

end Redix
