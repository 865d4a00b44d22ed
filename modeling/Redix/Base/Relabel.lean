import Redix.Base.Keyspace

/-!
# Programs on relabelled values

What a store keeps may be relabelled, each value by itself: moved in time, say, or encrypted.
A program that does the same on both sides, apart from the relabelling, commutes with it
(`Relabelled.run`): the answer is the relabelled answer, and what is left is what would have been
left, relabelled.

- `FlatMap.mapValues`: relabel the values of a map; the operations of maps are natural in it;
- `Program.Relabelled`: two programs that make the same accesses, with relabelled values;
- `Relabelled.run`: they commute with the relabelling, on values it keeps apart from the dead;
- `Relabelled.look`, `Relabelled.step`, `Relabelled.reads`, `Relabelled.cells`,
  `Relabelled.move`: the derived forms.
-/

universe u v w

namespace FlatMap

variable {κ : Type u} {ν : Type v} [LinearOrder κ] {g : ν → ν}

/-- Relabel the values. -/
def mapValues (g : ν → ν) (m : FlatMap κ ν) : FlatMap κ ν :=
  ⟨m.entries.map fun e => (e.1, g e.2), List.pairwise_map.mpr m.sorted⟩

/-- A lookup in relabelled entries. -/
theorem lookup_map (g : ν → ν) (k : κ) (entries : List (κ × ν)) :
    lookup k (entries.map fun e => (e.1, g e.2)) = (lookup k entries).map g := by
  induction entries with
  | nil => rfl
  | cons e rest ih =>
    rw [List.map_cons, lookup, lookup, ih]
    split_ifs <;> rfl

/-- Relabelled values, key by key. -/
@[simp] theorem find?_mapValues (g : ν → ν) (m : FlatMap κ ν) (k : κ) :
    (m.mapValues g).find? k = (m.find? k).map g :=
  lookup_map g k m.entries

@[simp] theorem contains_mapValues (g : ν → ν) (m : FlatMap κ ν) (k : κ) :
    (m.mapValues g).contains k = m.contains k := by
  rw [contains, find?_mapValues, Option.isSome_map, contains]

@[simp] theorem keys_mapValues (g : ν → ν) (m : FlatMap κ ν) : (m.mapValues g).keys = m.keys :=
  List.map_map

@[simp] theorem values_mapValues (g : ν → ν) (m : FlatMap κ ν) :
    (m.mapValues g).values = m.values.map g := by
  show (m.entries.map _).map _ = (m.entries.map _).map _
  rw [List.map_map, List.map_map]
  rfl

@[simp] theorem size_mapValues (g : ν → ν) (m : FlatMap κ ν) : (m.mapValues g).size = m.size :=
  List.length_map _

@[simp] theorem isEmpty_mapValues (g : ν → ν) (m : FlatMap κ ν) :
    (m.mapValues g).isEmpty = m.isEmpty :=
  List.isEmpty_map

/-- A write, before or after. -/
theorem mapValues_put (g : ν → ν) (m : FlatMap κ ν) (k : κ) (o : Option ν) :
    (m.put k o).mapValues g = (m.mapValues g).put k (o.map g) := by
  refine ext_find? fun k' => ?_
  rw [find?_mapValues, find?_put, find?_put, find?_mapValues]
  split_ifs <;> rfl

/-- It does not matter whether a key is erased before or after. -/
theorem mapValues_erase (g : ν → ν) (m : FlatMap κ ν) (k : κ) :
    (m.erase k).mapValues g = (m.mapValues g).erase k :=
  mapValues_put g m k none

/-- It does not matter whether a value is inserted before or after. -/
theorem mapValues_insert (g : ν → ν) (m : FlatMap κ ν) (k : κ) (v : ν) :
    (m.insert k v).mapValues g = (m.mapValues g).insert k (g v) :=
  mapValues_put g m k (some v)

/-- A filter that does not see the labels. -/
theorem mapValues_filter {m : FlatMap κ ν} {p p' : κ → ν → Bool}
    (h : ∀ k, ∀ v ∈ m.find? k, p' k (g v) = p k v) :
    (m.filter p).mapValues g = (m.mapValues g).filter p' := by
  refine ext_find? fun k => ?_
  rw [find?_mapValues, find?_filter, find?_filter, find?_mapValues]
  cases hfind : m.find? k with
  | none => rfl
  | some v =>
    rw [Option.map_some, Option.filter_some, Option.filter_some, h k v hfind]
    split_ifs <;> rfl

/-- Insertions count the same. -/
theorem insertAll_mapValues (g : ν → ν) (es : List (κ × ν)) (m : FlatMap κ ν) :
    insertAll (es.map fun e => (e.1, g e.2)) (m.mapValues g) =
      ((insertAll es m).1, (insertAll es m).2.mapValues g) := by
  induction es generalizing m with
  | nil => rfl
  | cons e rest ih =>
    simp only [List.map_cons, insertAll, ← mapValues_insert, ih, contains_mapValues]

/-- Erasures count the same. -/
theorem eraseAll_mapValues (g : ν → ν) (ks : List κ) (m : FlatMap κ ν) :
    eraseAll ks (m.mapValues g) = ((eraseAll ks m).1, (eraseAll ks m).2.mapValues g) := by
  induction ks generalizing m with
  | nil => rfl
  | cons k rest ih => simp only [eraseAll, ← mapValues_erase, ih, contains_mapValues]

end FlatMap

namespace Keyspace.Program

variable {κ : Type u} {ν : Type v} {ρ : Type w} [LinearOrder κ] {P : ν → Prop} {g : ν → ν}
  {h : ρ → ρ}

/-- The same accesses, with values relabelled by `g`, and an answer changed by `h`. Only values
with `P` are met. -/
inductive Relabelled (P : ν → Prop) (g : ν → ν) (h : ρ → ρ) :
    Program κ ν ρ → Program κ ν ρ → Prop
  | ret {reply reply' : ρ} (hreply : reply' = h reply) : Relabelled P g h (ret reply) (ret reply')
  | read (k : κ) {next next' : Option ν → Program κ ν ρ}
      (hnext : ∀ o, (∀ v ∈ o, P v) → Relabelled P g h (next o) (next' (o.map g))) :
      Relabelled P g h (read k next) (read k next')
  | write (k : κ) (o : Option ν) {next next' : Program κ ν ρ}
      (hnext : Relabelled P g h next next') :
      Relabelled P g h (write k o next) (write k (o.map g) next')
  | scan {next next' : FlatMap κ ν → Program κ ν ρ}
      (hnext : ∀ m, Relabelled P g h (next m) (next' (m.mapValues g))) :
      Relabelled P g h (scan next) (scan next')
  | clear {next next' : Program κ ν ρ} (hnext : Relabelled P g h next next') :
      Relabelled P g h (clear next) (clear next')

/-- There is nothing to keep. -/
theorem keeps_true (p : Program κ ν ρ) : p.Keeps fun _ => True := by
  induction p with
  | ret => trivial
  | read k next ih => exact fun o _ => ih o
  | write k o next ih => exact ⟨fun _ _ => trivial, ih⟩
  | scan next ih => exact fun m => ih m
  | clear next ih => exact ih

namespace Relabelled

variable {p p' : Program κ ν ρ} {live live' : ν → Bool}

/-- **Relabelled programs commute with the relabelling.** -/
theorem run (hlive : ∀ v, P v → live' (g v) = live v) (hp : Relabelled P g h p p') :
    ∀ {m : FlatMap κ ν}, p.Keeps P → (∀ k, ∀ v ∈ m.find? k, P v) →
      p'.run live' (m.mapValues g) = (h (p.run live m).1, (p.run live m).2.mapValues g) := by
  induction hp with
  | ret hreply => exact fun _ _ => Prod.ext hreply rfl
  | read k _ ih =>
    intro m hkeeps hm
    -- relabelling keeps what is live, so both programs read the same up to `g`
    have hfound : ((m.mapValues g).find? k).filter live' = ((m.find? k).filter live).map g := by
      rw [FlatMap.find?_mapValues]
      cases hfind : m.find? k with
      | none => rfl
      | some v =>
        rw [Option.map_some, Option.filter_some, Option.filter_some, hlive v (hm k v hfind)]
        split_ifs <;> rfl
    have hread : ∀ v ∈ (m.find? k).filter live, P v := fun v hv =>
      hm k v (Option.mem_filter_iff.mp hv).1
    rw [Program.run, Program.run, hfound]
    exact ih _ hread (hkeeps _ hread) hm
  | write k o _ ih =>
    intro m hkeeps hm
    -- `Keeps` puts the value written under the invariant
    have hput : ∀ k', ∀ v ∈ (m.put k o).find? k', P v := by
      intro k' v hv
      rw [FlatMap.find?_put] at hv
      split_ifs at hv
      · exact hkeeps.1 v hv
      · exact hm k' v hv
    rw [Program.run, Program.run, ← FlatMap.mapValues_put]
    exact ih hkeeps.2 hput
  | scan _ ih =>
    intro m hkeeps hm
    have hpurged : purge live' (m.mapValues g) = (purge live m).mapValues g :=
      (FlatMap.mapValues_filter fun k v hv => hlive v (hm k v hv)).symm
    rw [Program.run, Program.run, hpurged]
    exact ih _ (hkeeps _) hm
  | clear _ ih =>
    intro m hkeeps _
    rw [Program.run, Program.run]
    exact ih (m := FlatMap.empty) hkeeps fun k v hv => absurd hv (Option.not_mem_none v)

/-- A look at a relabelled value. -/
theorem look (k : κ) {answer answer' : Option ν → ρ}
    (hanswer : ∀ o, (∀ v ∈ o, P v) → answer' (o.map g) = h (answer o)) :
    Relabelled P g h (Program.look k answer) (Program.look k answer') :=
  .read k fun o ho => .ret (hanswer o ho)

/-- A step on a relabelled value. -/
theorem step (k : κ) {update update' : Option ν → ρ × Option (Option ν)}
    (hupdate : ∀ o, (∀ v ∈ o, P v) →
      update' (o.map g) = (h (update o).1, (update o).2.map (Option.map g))) :
    Relabelled P g h (Program.step k update) (Program.step k update') := by
  refine .read k fun o ho => ?_
  rw [hupdate o ho]
  cases (update o).2 with
  | none => exact .ret rfl
  | some written => exact .write k written (.ret rfl)

/-- Reads of relabelled values. -/
theorem reads (ks : List κ) {next next' : List (Option ν) → Program κ ν ρ}
    (hnext : ∀ os, (∀ o ∈ os, ∀ v ∈ o, P v) →
      Relabelled P g h (next os) (next' (os.map (Option.map g)))) :
    Relabelled P g h (Program.reads ks next) (Program.reads ks next') := by
  induction ks generalizing next next' with
  | nil => exact hnext [] fun _ ho => absurd ho List.not_mem_nil
  | cons k rest ih =>
    exact .read k fun o ho => ih fun os hos => hnext (o :: os) (List.forall_mem_cons.mpr ⟨ho, hos⟩)

/-- Updates of many keys, one by one relabelled. -/
theorem cells {us us' : List (κ × (Option ν → Nat × Option ν))}
    (hus : List.Forall₂ (fun u u' => u.1 = u'.1 ∧
      ∀ o, u'.2 (o.map g) = ((u.2 o).1, (u.2 o).2.map g)) us us') {fin fin' : Nat → ρ}
    (hfin : ∀ n, fin' n = h (fin n)) :
    Relabelled P g h (Program.cells us fin) (Program.cells us' fin') := by
  induction hus generalizing fin fin' with
  | nil => exact .ret (hfin 0)
  | @cons u u' us us' hu _ ih =>
    obtain ⟨k, update⟩ := u
    obtain ⟨k', update'⟩ := u'
    obtain ⟨rfl, hupdate⟩ := hu
    refine .read k fun o _ => ?_
    have hsame : update' (o.map g) = ((update o).1, (update o).2.map g) := hupdate o
    rw [hsame]
    exact .write k _ (ih fun n => hfin _)

/-- A move of a relabelled value. -/
theorem move (src dst : κ) {moved missing : ρ} (hmoved : h moved = moved)
    (hmissing : h missing = missing) :
    Relabelled P g h (Program.move src dst moved missing) (Program.move src dst moved missing) := by
  refine .read src fun o _ => ?_
  cases o with
  | none => exact .write src none (.ret hmissing.symm)
  | some v => exact .write src none (.write dst (some v) (.ret hmoved.symm))

end Relabelled

end Keyspace.Program
