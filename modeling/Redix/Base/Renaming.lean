import Redix.Base.Keyspace

/-!
# Programs on renamed keys

A program over a keyspace does not look into its keys: it hands them to the store, and the
answer is made of the values found. So with the keys renamed, by a function that keeps them
apart, it does the same to a store in which the entries are found under the new names
(`Mirrors`). There may be other entries in that store, dead or alive; the program does not
get to see them.

- `Program.Renamed`: two programs that make the same accesses, up to the names of the keys;
- `Renamed.run`: they give the same answer, and leave stores of which one mirrors the other;
- `Renamed.step`, `Renamed.reads`, `Renamed.cells`, `Renamed.move`: the derived forms.
-/

universe u v w

namespace Keyspace

open Program

variable {κ κ' : Type u} {ν : Type v} {ρ : Type w} [LinearOrder κ] [LinearOrder κ']
  {live : ν → Bool} {f : κ → κ'}

/-- Under the new names, `m'` shows what `m` shows. -/
def Mirrors (live : ν → Bool) (f : κ → κ') (m : FlatMap κ ν) (m' : FlatMap κ' ν) : Prop :=
  ∀ k, (m'.find? (f k)).filter live = (m.find? k).filter live

/-- A write to both. -/
theorem Mirrors.put (hf : Function.Injective f) {m : FlatMap κ ν} {m' : FlatMap κ' ν}
    (h : Mirrors live f m m') (k : κ) (o : Option ν) :
    Mirrors live f (m.put k o) (m'.put (f k) o) := by
  intro k'
  rw [FlatMap.find?_put, FlatMap.find?_put]
  by_cases hk : k = k'
  · rw [if_pos hk, if_pos (congrArg f hk)]
  · rw [if_neg hk, if_neg fun heq => hk (hf heq)]
    exact h k'

namespace Program

/-- The same accesses, to renamed keys. Walks and clears are about all keys, and have no
counterpart under new names. -/
inductive Renamed (f : κ → κ') : Program κ ν ρ → Program κ' ν ρ → Prop
  | ret (reply : ρ) : Renamed f (ret reply) (ret reply)
  | read (k : κ) {next : Option ν → Program κ ν ρ} {next' : Option ν → Program κ' ν ρ}
      (h : ∀ o, Renamed f (next o) (next' o)) : Renamed f (read k next) (read (f k) next')
  | write (k : κ) (o : Option ν) {next : Program κ ν ρ} {next' : Program κ' ν ρ}
      (h : Renamed f next next') : Renamed f (write k o next) (write (f k) o next')

namespace Renamed

variable {p : Program κ ν ρ} {p' : Program κ' ν ρ}

/-- **Renamed programs do the same.** -/
theorem run (hf : Function.Injective f) (h : Renamed f p p') :
    ∀ {m : FlatMap κ ν} {m' : FlatMap κ' ν}, Mirrors live f m m' →
      (p'.run live m').1 = (p.run live m).1 ∧
        Mirrors live f (p.run live m).2 (p'.run live m').2 := by
  induction h with
  | ret reply => exact fun hm => ⟨rfl, hm⟩
  | read k _ ih =>
    intro m m' hm
    rw [Program.run, Program.run, hm k]
    exact ih _ hm
  | write k o _ ih => exact fun hm => ih (hm.put hf k o)

/-- A look at a renamed key. -/
theorem look (k : κ) (answer : Option ν → ρ) :
    Renamed f (Program.look k answer) (Program.look (f k) answer) :=
  .read k fun _ => .ret _

/-- A step on a renamed key. -/
theorem step (k : κ) (update : Option ν → ρ × Option (Option ν)) :
    Renamed f (Program.step k update) (Program.step (f k) update) := by
  refine .read k fun o => ?_
  cases (update o).2 with
  | none => exact .ret _
  | some written => exact .write k written (.ret _)

/-- Reads of renamed keys. -/
theorem reads (ks : List κ) {next : List (Option ν) → Program κ ν ρ}
    {next' : List (Option ν) → Program κ' ν ρ} (h : ∀ os, Renamed f (next os) (next' os)) :
    Renamed f (Program.reads ks next) (Program.reads (ks.map f) next') := by
  induction ks generalizing next next' with
  | nil => exact h []
  | cons k rest ih => exact .read k fun o => ih fun os => h (o :: os)

/-- Writes to renamed keys. -/
theorem cells (us : List (κ × (Option ν → Nat × Option ν))) (fin : Nat → ρ) :
    Renamed f (Program.cells us fin) (Program.cells (us.map fun u => (f u.1, u.2)) fin) := by
  induction us generalizing fin with
  | nil => exact .ret _
  | cons u rest ih => exact .read u.1 fun o => .write u.1 _ (ih _)

/-- A move between renamed keys. -/
theorem move (src dst : κ) (moved missing : ρ) :
    Renamed f (Program.move src dst moved missing : Program κ ν ρ)
      (Program.move (f src) (f dst) moved missing) := by
  refine .read src fun o => ?_
  cases o with
  | none => exact .write src none (.ret _)
  | some v => exact .write src none (.write dst (some v) (.ret _))

end Renamed

end Program

end Keyspace
