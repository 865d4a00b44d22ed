import Redix.Base.FlatMap
import Mathlib.Logic.Basic

/-!
# Programs over a keyspace with lazily removed entries

A keyed store that never removes dead entries on its own: each access looks an
entry up, treats a dead one as absent, and only writes ever tidy up behind it.
`Program κ ν ρ` is the tree of such accesses a request makes: read a key
(dead entries are hidden), write or erase a key, walk the live entries in key
order, drop everything, answer. `Program.run live` is its meaning on a physical
map, for a given liveness predicate.

What holds of *every* program, by one induction over the tree:

- `run_congr`: two maps with the same live entries give the same answer and
  are left with the same live entries. Dead entries are unobservable, so lazy
  removal is indistinguishable from eager removal.
- `run_frame` / `run_local`: a program that stays `Within` a set of keys
  neither changes nor depends on anything outside it, nor on dead entries inside
  (`run_local_congr`); hence programs on disjoint keys commute, down to the
  physical map (`run_comm`).
- `run_readOnly`: without a write node, the physical map is untouched.
- `run_keeps`: an invariant of single values that every written value satisfies
  is an invariant of the whole map.

The derived forms `look` and `step` (a pure function of one key's live value,
without and with a write), `reads`, `cells` (a sequence of single-key updates
with an accumulated count) and `move` come with their run equations and with one
rule per property.
-/

universe u v w

namespace Keyspace

variable {κ : Type u} {ν : Type v} {ρ : Type w} [LinearOrder κ]

/-! ## The live part of a map -/

/-- Physically remove every dead entry. -/
def purge (live : ν → Bool) (m : FlatMap κ ν) : FlatMap κ ν :=
  m.filter fun _ v => live v

/-- What is found after a purge is live. -/
theorem find?_purge (live : ν → Bool) (m : FlatMap κ ν) (k : κ) :
    (purge live m).find? k = (m.find? k).filter live :=
  FlatMap.find?_filter m _ k

/-- A purge sees a write if it is live. -/
theorem purge_put (live : ν → Bool) (m : FlatMap κ ν) (k : κ) (o : Option ν) :
    purge live (m.put k o) = (purge live m).put k (o.filter live) :=
  FlatMap.filter_put m _ k o

/-- Writing back the live value of a key is unobservable. -/
theorem purge_put_live (live : ν → Bool) (m : FlatMap κ ν) (k : κ) :
    purge live (m.put k ((m.find? k).filter live)) = purge live m := by
  rw [purge_put]
  refine FlatMap.put_find? _ ?_
  rw [find?_purge, Option.filter_filter]
  simp

/-- Purging at a later, stricter liveness absorbs an earlier purge. -/
theorem purge_purge {live live' : ν → Bool} (h : ∀ v, live' v → live v)
    (m : FlatMap κ ν) : purge live' (purge live m) = purge live' m := by
  refine FlatMap.ext_find? fun k => ?_
  rw [find?_purge, find?_purge, find?_purge]
  cases m.find? k with
  | none => rfl
  | some v =>
    by_cases hv : live' v
    · simp [Option.filter, hv, h v hv]
    · by_cases hl : live v <;> simp [Option.filter, hv, hl]

/-! ## Programs -/

/-- The accesses of one request to the keyspace, as a tree. -/
inductive Program (κ : Type u) (ν : Type v) (ρ : Type w) [LinearOrder κ] where
  /-- Answer. -/
  | ret (reply : ρ)
  /-- Look a key up; a dead value reads as absent. -/
  | read (k : κ) (next : Option ν → Program κ ν ρ)
  /-- Write a key (`some`) or erase it (`none`). -/
  | write (k : κ) (o : Option ν) (next : Program κ ν ρ)
  /-- Walk the live entries. -/
  | scan (next : FlatMap κ ν → Program κ ν ρ)
  /-- Drop every entry. -/
  | clear (next : Program κ ν ρ)

namespace Program

/-- The meaning of a program on a physical map. -/
def run (live : ν → Bool) : Program κ ν ρ → FlatMap κ ν → ρ × FlatMap κ ν
  | ret r, m => (r, m)
  | read k next, m => (next ((m.find? k).filter live)).run live m
  | write k o next, m => next.run live (m.put k o)
  | scan next, m => (next (purge live m)).run live m
  | clear next, _ => next.run live FlatMap.empty

section rules

variable {live : ν → Bool}

/-- **Dead entries are unobservable**: maps with equal live parts give equal
answers and are left with equal live parts. -/
theorem run_congr (p : Program κ ν ρ) :
    ∀ {m m' : FlatMap κ ν}, purge live m = purge live m' →
      (p.run live m).1 = (p.run live m').1 ∧
      purge live (p.run live m).2 = purge live (p.run live m').2 := by
  induction p with
  | ret r => exact fun h => ⟨rfl, h⟩
  | read k next ih =>
    intro m m' h
    -- a read sees the live part only
    have hk : (m.find? k).filter live = (m'.find? k).filter live := by
      rw [← find?_purge, h, find?_purge]
    rw [run, run, hk]
    exact ih _ h
  | write k o next ih =>
    intro m m' h
    exact ih (by rw [purge_put, purge_put, h])
  | scan next ih =>
    intro m m' h
    rw [run, run, h]
    exact ih _ h
  | clear next ih => exact fun _ => ih rfl

/-! ### Footprints -/

/-- The program touches only keys in `F` (a walk or a clear touches all). -/
def Within (F : κ → Prop) : Program κ ν ρ → Prop
  | ret _ => True
  | read k next => F k ∧ ∀ o, (next o).Within F
  | write k _ next => F k ∧ next.Within F
  | scan next => (∀ k, F k) ∧ ∀ m, (next m).Within F
  | clear next => (∀ k, F k) ∧ next.Within F

/-- Frame: keys outside the footprint keep their physical entry. -/
theorem run_frame {F : κ → Prop} {k : κ} (hk : ¬ F k) (p : Program κ ν ρ) :
    ∀ {m : FlatMap κ ν}, p.Within F → (p.run live m).2.find? k = m.find? k := by
  induction p with
  | ret r => exact fun _ => rfl
  | read j next ih => exact fun h => ih _ (h.2 _)
  | write j o next ih =>
    intro m h
    have hne : j ≠ k := fun hjk => hk (hjk ▸ h.1)
    exact (ih h.2).trans (FlatMap.find?_put_ne m hne o)
  | scan next ih => exact fun h => absurd (h.1 k) hk
  | clear next ih => exact fun h => absurd (h.1 k) hk

/-- Locality: the answer and the entries written depend only on the entries
inside the footprint. -/
theorem run_local (live : ν → Bool) {F : κ → Prop} (p : Program κ ν ρ) :
    ∀ {m m' : FlatMap κ ν}, p.Within F →
      (∀ k, F k → m.find? k = m'.find? k) →
      (p.run live m).1 = (p.run live m').1 ∧
      ∀ k, F k → (p.run live m).2.find? k = (p.run live m').2.find? k := by
  induction p with
  | ret r => exact fun _ h => ⟨rfl, h⟩
  | read j next ih =>
    intro m m' hw h
    rw [run, run, h j hw.1]
    exact ih _ (hw.2 _) h
  | write j o next ih =>
    intro m m' hw h
    refine ih hw.2 fun k hk => ?_
    rw [FlatMap.find?_put, FlatMap.find?_put, h k hk]
  | scan next ih =>
    intro m m' hw h
    -- every key is in the footprint
    obtain rfl : m = m' := FlatMap.ext_find? fun k => h k (hw.1 k)
    exact ⟨rfl, fun _ _ => rfl⟩
  | clear next ih => exact fun hw _ => ⟨rfl, fun _ _ => rfl⟩

/-- Locality, of the live part: dead entries inside the footprint do not matter either. -/
theorem run_local_congr {F : κ → Prop} (p : Program κ ν ρ) {m m' : FlatMap κ ν}
    (hp : p.Within F)
    (h : ∀ k, F k → (m.find? k).filter live = (m'.find? k).filter live) :
    (p.run live m).1 = (p.run live m').1 ∧
    ∀ k, F k → ((p.run live m).2.find? k).filter live =
      ((p.run live m').2.find? k).filter live := by
  -- both maps may be purged first, and then they agree
  have hpurged (m : FlatMap κ ν) := run_congr p (@purge_purge κ ν _ live live (fun _ hv => hv) m)
  have hagree (k : κ) (hk : F k) : (purge live m).find? k = (purge live m').find? k := by
    rw [find?_purge, find?_purge, h k hk]
  obtain ⟨hanswer, hafter⟩ := run_local live p hp hagree
  refine ⟨(hpurged m).1.symm.trans (hanswer.trans (hpurged m').1), fun k hk => ?_⟩
  rw [← find?_purge, ← (hpurged m).2, find?_purge, hafter k hk, ← find?_purge, (hpurged m').2,
    find?_purge]

/-- **Disjoint programs commute**: same answers in either order, and the same
physical map at the end. -/
theorem run_comm (live : ν → Bool) {ρ' : Type w} {F G : κ → Prop} {p : Program κ ν ρ}
    {q : Program κ ν ρ'} (hp : p.Within F) (hq : q.Within G)
    (hdisj : ∀ k, F k → ¬ G k) (m : FlatMap κ ν) :
    (p.run live (q.run live m).2).1 = (p.run live m).1 ∧
    (q.run live (p.run live m).2).1 = (q.run live m).1 ∧
    (q.run live (p.run live m).2).2 = (p.run live (q.run live m).2).2 := by
  have hq_frame : ∀ k, F k → (q.run live m).2.find? k = m.find? k :=
    fun k hk => run_frame (hdisj k hk) q hq
  have hp_frame : ∀ k, G k → (p.run live m).2.find? k = m.find? k :=
    fun k hk => run_frame (fun hF => hdisj k hF hk) p hp
  have hpq := run_local live p hp hq_frame
  have hqp := run_local live q hq hp_frame
  refine ⟨hpq.1, hqp.1, FlatMap.ext_find? fun k => ?_⟩
  -- the key belongs to `p`, to `q`, or to neither
  by_cases hF : F k
  · rw [run_frame (hdisj k hF) q hq, hpq.2 k hF]
  · rw [run_frame hF p hp]
    by_cases hG : G k
    · exact hqp.2 k hG
    · rw [run_frame hG q hq, run_frame hF p hp, run_frame hG q hq]

/-! ### Read-only programs -/

/-- No write and no clear on any path. -/
def ReadOnly : Program κ ν ρ → Prop
  | ret _ => True
  | read _ next => ∀ o, (next o).ReadOnly
  | write _ _ _ => False
  | scan next => ∀ m, (next m).ReadOnly
  | clear _ => False

/-- A read-only program leaves the physical map exactly as it was. -/
theorem run_readOnly (p : Program κ ν ρ) :
    ∀ {m : FlatMap κ ν}, p.ReadOnly → (p.run live m).2 = m := by
  induction p with
  | ret r => exact fun _ => rfl
  | read k next ih => exact fun h => ih _ (h _)
  | write k o next ih => exact fun h => h.elim
  | scan next ih => exact fun h => ih _ (h _)
  | clear next ih => exact fun h => h.elim

/-! ### Value invariants -/

/-- Every value the program writes satisfies `P`, provided every value it reads
does. -/
def Keeps (P : ν → Prop) : Program κ ν ρ → Prop
  | ret _ => True
  | read _ next => ∀ o : Option ν, (∀ v ∈ o, P v) → (next o).Keeps P
  | write _ o next => (∀ v ∈ o, P v) ∧ next.Keeps P
  | scan next => ∀ m : FlatMap κ ν, (next m).Keeps P
  | clear next => next.Keeps P

/-- An invariant of values is preserved by every program that keeps it. -/
theorem run_keeps {P : ν → Prop} (p : Program κ ν ρ) :
    ∀ {m : FlatMap κ ν}, p.Keeps P → (∀ k, ∀ v ∈ m.find? k, P v) →
      ∀ k, ∀ v ∈ (p.run live m).2.find? k, P v := by
  -- what is read satisfies `P`, so what is written does
  induction p with
  | ret r => exact fun _ h => h
  | read j next ih =>
    intro m hp h
    refine ih _ (hp _ fun v hv => ?_) h
    exact h j v (Option.mem_filter_iff.mp hv).1
  | write j o next ih =>
    intro m hp h
    refine ih hp.2 fun k v hv => ?_
    rw [FlatMap.find?_put] at hv
    split_ifs at hv with hjk
    · exact hp.1 v hv
    · exact h k v hv
  | scan next ih => exact fun hp h => ih _ (hp _) h
  | clear next ih => exact fun hp _ => ih hp fun k v hv => by cases hv

end rules

/-! ## Derived forms -/

/-- Answer from the live value of one key. -/
def look (k : κ) (f : Option ν → ρ) : Program κ ν ρ :=
  read k fun o => ret (f o)

/-- Answer after a write, if there is one. -/
def finish (k : κ) (reply : ρ) : Option (Option ν) → Program κ ν ρ
  | none => ret reply
  | some o => write k o (ret reply)

/-- Answer from the live value of one key, and perhaps write it. -/
def step (k : κ) (f : Option ν → ρ × Option (Option ν)) : Program κ ν ρ :=
  read k fun o => finish k (f o).1 (f o).2

/-- Read a list of keys in order, then continue with their live values. -/
def reads : List κ → (List (Option ν) → Program κ ν ρ) → Program κ ν ρ
  | [], next => next []
  | k :: ks, next => read k fun o => reads ks fun os => next (o :: os)

/-- Update keys one after another, adding up the counts of the updates. -/
def cells : List (κ × (Option ν → Nat × Option ν)) → (Nat → ρ) → Program κ ν ρ
  | [], fin => ret (fin 0)
  | (k, f) :: rest, fin =>
    read k fun o => write k (f o).2 (cells rest fun n => fin ((f o).1 + n))

/-- Move the live value of one key to another, replacing what is there. -/
def move (src dst : κ) (moved missing : ρ) : Program κ ν ρ :=
  read src fun
    | none => write src none (ret missing)
    | some v => write src none (write dst (some v) (ret moved))

section derived

variable {live : ν → Bool} {F : κ → Prop} {P : ν → Prop}

/-- A step, in one go. -/
theorem run_step (k : κ) (f : Option ν → ρ × Option (Option ν)) (m : FlatMap κ ν) :
    (step k f).run live m =
      ((f ((m.find? k).filter live)).1,
        (f ((m.find? k).filter live)).2.elim m (m.put k)) := by
  rw [step, run]
  cases hw : (f ((m.find? k).filter live)).2 <;> rfl

/-- Reads, in one go. -/
theorem run_reads (ks : List κ) (next : List (Option ν) → Program κ ν ρ)
    (m : FlatMap κ ν) :
    (reads ks next).run live m =
      (next (ks.map fun k => (m.find? k).filter live)).run live m := by
  induction ks generalizing next with
  | nil => rfl
  | cons k ks ih =>
    rw [reads, run, ih]
    rfl

/-- What a sequence of updates counts, and what it leaves. -/
def runCells (live : ν → Bool) :
    List (κ × (Option ν → Nat × Option ν)) → FlatMap κ ν → Nat × FlatMap κ ν
  | [], m => (0, m)
  | u :: rest, m =>
    let (n, o) := u.2 ((m.find? u.1).filter live)
    let (total, m) := runCells live rest (m.put u.1 o)
    (n + total, m)

/-- Writes to many keys, in one go. -/
theorem run_cells (live : ν → Bool) (us : List (κ × (Option ν → Nat × Option ν)))
    (fin : Nat → ρ) (m : FlatMap κ ν) :
    (cells us fin).run live m = (fin (runCells live us m).1, (runCells live us m).2) := by
  induction us generalizing fin m with
  | nil => rfl
  | cons u us ih => exact ih _ _

/-- Two sequences of updates are one. -/
theorem runCells_append (live : ν → Bool) (us us' : List (κ × (Option ν → Nat × Option ν)))
    (m : FlatMap κ ν) :
    runCells live (us ++ us') m =
      ((runCells live us m).1 + (runCells live us' (runCells live us m).2).1,
        (runCells live us' (runCells live us m).2).2) := by
  induction us generalizing m with
  | nil => exact Prod.ext (Nat.zero_add _).symm rfl
  | cons u us ih =>
    simp only [List.cons_append, runCells, ih]
    exact Prod.ext (Nat.add_assoc _ _ _).symm rfl

/-- What every update of a key leaves there, a sequence of updates leaves there: if
the key is among the updated ones, or was so before. -/
theorem find?_cells {k : κ} {Q : Option ν → Prop} (live : ν → Bool)
    {us : List (κ × (Option ν → Nat × Option ν))}
    (hus : ∀ u ∈ us, u.1 = k → ∀ o, Q (u.2 o).2) (fin : Nat → ρ) :
    ∀ m : FlatMap κ ν, k ∈ us.map Prod.fst ∨ Q (m.find? k) →
      Q (((cells us fin).run live m).2.find? k) := by
  induction us generalizing fin with
  | nil => exact fun m h => h.resolve_left List.not_mem_nil
  | cons u us ih =>
    intro m h
    refine ih (fun u' hu' => hus u' (List.mem_cons_of_mem u hu')) _ _ ?_
    rw [FlatMap.find?_put]
    -- the last cell for the key decides what it is left with
    by_cases hk : u.1 = k
    · rw [if_pos hk]
      exact .inr (hus u List.mem_cons_self hk _)
    · rw [if_neg hk]
      refine h.imp_left fun hmem => ?_
      rw [List.map_cons, List.mem_cons] at hmem
      exact hmem.resolve_left (Ne.symm hk)

/-- A step stays within the keys if its own is one. -/
theorem within_step {k : κ} (hk : F k) (f : Option ν → ρ × Option (Option ν)) :
    (step k f).Within F := by
  refine ⟨hk, fun o => ?_⟩
  show (finish k (f o).1 (f o).2).Within F
  cases (f o).2 with
  | none => trivial
  | some o' => exact ⟨hk, trivial⟩

/-- Reads stay within the keys if theirs are among them. -/
theorem within_reads {ks : List κ} (hks : ∀ k ∈ ks, F k)
    {next : List (Option ν) → Program κ ν ρ} (hnext : ∀ os, (next os).Within F) :
    (reads ks next).Within F := by
  induction ks generalizing next with
  | nil => exact hnext []
  | cons k ks ih =>
    exact ⟨hks k List.mem_cons_self, fun o =>
      ih (fun j hj => hks j (List.mem_cons_of_mem k hj)) fun os => hnext _⟩

/-- Writes stay within the keys if theirs are among them. -/
theorem within_cells {us : List (κ × (Option ν → Nat × Option ν))}
    (hus : ∀ u ∈ us, F u.1) (fin : Nat → ρ) : (cells us fin).Within F := by
  induction us generalizing fin with
  | nil => trivial
  | cons u us ih =>
    have hu : F u.1 := hus u List.mem_cons_self
    exact ⟨hu, fun o => ⟨hu, ih (fun j hj => hus j (List.mem_cons_of_mem u hj)) _⟩⟩

/-- Writes that do not look at what is there leave the same everywhere. -/
theorem find?_assignments {k : κ} (live live' : ν → Bool) {es : List (κ × ν)}
    (hk : k ∈ es.map Prod.fst) :
    ∀ m m' : FlatMap κ ν,
      (runCells live (es.map fun e => (e.1, fun _ => (0, some e.2))) m).2.find? k =
        (runCells live' (es.map fun e => (e.1, fun _ => (0, some e.2))) m').2.find? k := by
  induction es with
  | nil => exact absurd hk List.not_mem_nil
  | cons e rest ih =>
    intro m m'
    by_cases hrest : k ∈ rest.map Prod.fst
    · exact ih hrest _ _
    · -- the first write is the last to this key
      have hself : k = e.1 := (List.mem_cons.mp hk).resolve_right hrest
      have hframe (live : ν → Bool) (m : FlatMap κ ν) :
          (runCells live (rest.map fun e => (e.1, fun _ => (0, some e.2))) m).2.find? k =
            m.find? k := by
        have hcells := run_cells live (rest.map fun e => (e.1, fun _ => (0, some e.2))) id m
        have hwithin : (cells (rest.map fun e => (e.1, fun _ => (0, some e.2))) id).Within
            (· ∈ rest.map Prod.fst) := by
          refine within_cells (fun u hu => ?_) id
          obtain ⟨e, he, rfl⟩ := List.mem_map.mp hu
          exact List.mem_map_of_mem he
        have hkept := @run_frame κ ν Nat _ live (· ∈ rest.map Prod.fst) k hrest _ m hwithin
        rwa [hcells] at hkept
      show (runCells live (rest.map _) (m.put e.1 (some e.2))).2.find? k =
        (runCells live' (rest.map _) (m'.put e.1 (some e.2))).2.find? k
      rw [hframe, hframe, hself, FlatMap.find?_put_self, FlatMap.find?_put_self]

/-- A move stays within the keys if both of its own are. -/
theorem within_move {src dst : κ} (hsrc : F src) (hdst : F dst) (moved missing : ρ) :
    (move src dst moved missing : Program κ ν ρ).Within F := by
  refine ⟨hsrc, fun o => ?_⟩
  cases o with
  | none => exact ⟨hsrc, trivial⟩
  | some v => exact ⟨hsrc, hdst, trivial⟩

/-- Reads write nothing, if what follows does not. -/
theorem readOnly_reads {ks : List κ} {next : List (Option ν) → Program κ ν ρ}
    (hnext : ∀ os, (next os).ReadOnly) : (reads ks next).ReadOnly := by
  induction ks generalizing next with
  | nil => exact hnext []
  | cons k ks ih => exact fun o => ih fun os => hnext _

/-- A step keeps what its update keeps. -/
theorem keeps_step {k : κ} {f : Option ν → ρ × Option (Option ν)}
    (hf : ∀ o : Option ν, (∀ v ∈ o, P v) → ∀ o' ∈ (f o).2, ∀ v ∈ o', P v) :
    (step k f).Keeps P := by
  intro o ho
  show (finish k (f o).1 (f o).2).Keeps P
  cases hw : (f o).2 with
  | none => trivial
  | some o' => exact ⟨hf o ho o' hw, trivial⟩

/-- Reads keep what follows them keeps. -/
theorem keeps_reads {ks : List κ} {next : List (Option ν) → Program κ ν ρ}
    (hnext : ∀ os, (next os).Keeps P) : (reads ks next).Keeps P := by
  induction ks generalizing next with
  | nil => exact hnext []
  | cons k ks ih => exact fun o _ => ih fun os => hnext _

/-- Writes keep what each of them keeps. -/
theorem keeps_cells {us : List (κ × (Option ν → Nat × Option ν))}
    (hus : ∀ u ∈ us, ∀ o : Option ν, (∀ v ∈ o, P v) → ∀ v ∈ (u.2 o).2, P v)
    (fin : Nat → ρ) : (cells us fin).Keeps P := by
  induction us generalizing fin with
  | nil => trivial
  | cons u us ih =>
    exact fun o ho => ⟨hus u List.mem_cons_self o ho,
      ih (fun j hj => hus j (List.mem_cons_of_mem u hj)) _⟩

/-- A move writes nothing that was not there. -/
theorem keeps_move (src dst : κ) (moved missing : ρ) :
    (move src dst moved missing : Program κ ν ρ).Keeps P := by
  intro o ho
  cases o with
  | none => exact ⟨fun _ hv => (Option.not_mem_none _ hv).elim, trivial⟩
  | some v => exact ⟨fun _ hv => (Option.not_mem_none _ hv).elim, ho, trivial⟩

end derived

end Program

end Keyspace
