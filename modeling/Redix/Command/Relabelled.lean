import Redix.Base.Relabel
import Redix.Command.Effects

/-!
# Commands on relabelled entries

What it takes for a command to commute with a relabelling `g` of the entries, when the replies
change by `h` (which leaves errors alone). It is asked of each form of command separately: of
the operations that its parser hands out, and of what it answers from the entries.

- `Parsed`: two parsers agree in what they refuse, and hand out operations that correspond;
- `relabelled_look`, `relabelled_update`, ...: the program of a command, by its form;
- `exec_relabelled`, `sweepExpired_relabelled`: what then happens to a relabelled store.
-/

namespace Redix

open Keyspace

variable {P : Entry → Prop} {g : Entry → Entry} {h : Reply → Reply} {now now' : UInt64}

/-! ## Parsers -/

/-- The same refusal, or operations that correspond. -/
inductive Parsed {ω : Type 1} (h : Reply → Reply) (R : ω → ω → Prop) :
    Except Reply ω → Except Reply ω → Prop
  | error {reply : Reply} (hreply : h reply = reply) : Parsed h R (.error reply) (.error reply)
  | ok {op op' : ω} (hop : R op op') : Parsed h R (.ok op) (.ok op')

namespace Parsed

variable {ω : Type 1} {R : ω → ω → Prop} {op op' : ω} {rest : List Bytes}

/-- Parsers of no arguments agree, if the operations correspond. -/
theorem noArgs (harity : h .wrongArity = .wrongArity) (hop : R op op') :
    Parsed h R (noArgs op rest) (noArgs op' rest) := by
  cases rest with
  | nil => exact .ok hop
  | cons arg rest => exact .error harity

/-- Parsers of one argument agree, if they agree on the argument. -/
theorem oneArg {f f' : Bytes → Except Reply ω} (harity : h .wrongArity = .wrongArity)
    (hf : ∀ arg, Parsed h R (f arg) (f' arg)) : Parsed h R (oneArg f rest) (oneArg f' rest) := by
  rcases rest with _ | ⟨arg, _ | ⟨extra, rest⟩⟩
  · exact .error harity
  · exact hf arg
  · exact .error harity

/-- Parsers of two arguments agree, if they agree on both. -/
theorem twoArgs {f f' : Bytes → Bytes → Except Reply ω} (harity : h .wrongArity = .wrongArity)
    (hf : ∀ arg₁ arg₂, Parsed h R (f arg₁ arg₂) (f' arg₁ arg₂)) :
    Parsed h R (twoArgs f rest) (twoArgs f' rest) := by
  rcases rest with _ | ⟨arg₁, _ | ⟨arg₂, _ | ⟨extra, rest⟩⟩⟩
  · exact .error harity
  · exact .error harity
  · exact hf arg₁ arg₂
  · exact .error harity

/-- Parsers of arguments agree, if the operations correspond. -/
theorem someArgs {f f' : (args : List Bytes) → args ≠ [] → ω}
    (harity : h .wrongArity = .wrongArity) (hf : ∀ args hargs, R (f args hargs) (f' args hargs)) :
    Parsed h R (someArgs f rest) (someArgs f' rest) := by
  unfold Redix.someArgs
  split_ifs with hrest
  · exact .error harity
  · exact .ok (hf rest hrest)

/-- Parsers of a signed number agree, if the operations correspond for each. -/
theorem signed {f f' : Int64 → ω} (hnumber : h .notInteger = .notInteger)
    (hf : ∀ n, R (f n) (f' n)) (arg : Bytes) : Parsed h R (signed f arg) (signed f' arg) := by
  unfold Redix.signed
  cases parseI64 arg with
  | none => exact .error hnumber
  | some n => exact .ok (hf n)

/-- Parsers of an unsigned number agree, if the operations correspond for each. -/
theorem unsigned {f f' : UInt64 → ω} (hnumber : h .notInteger = .notInteger)
    (hf : ∀ n, R (f n) (f' n)) (arg : Bytes) :
    Parsed h R (unsigned f arg) (unsigned f' arg) := by
  unfold Redix.unsigned
  cases parseU64 arg with
  | none => exact .error hnumber
  | some n => exact .ok (hf n)

end Parsed

/-! ## Answers from entries -/

/-- A relabelling that keeps the type keeps the name of the type. -/
theorem typeReply_relabelled (htype : ∀ e, (g e).value.type = e.value.type) (o : Option Entry) :
    typeReply (o.map g) = typeReply o := by
  cases o with
  | none => rfl
  | some e => simp only [Option.map_some, typeReply, htype]

section algebra

variable (hset : ∀ e, setValue.get? (g e).value = setValue.get? e.value)
include hset

/-- The intersection sees the sets of the entries only. -/
theorem interLoop_relabelled (os : List (Option Entry)) (result : Option (FlatMap Bytes Unit)) :
    Store.interLoop (os.map (Option.map g)) result = Store.interLoop os result := by
  induction os generalizing result with
  | nil => rfl
  | cons o rest ih =>
    cases o with
    | none => rfl
    | some e =>
      rw [List.map_cons, Option.map_some, Store.interLoop, Store.interLoop, hset]
      -- a relabelled entry holds the same set
      cases setValue.get? e.value with
      | none => rfl
      | some set => cases result <;> simp only [ih]

/-- The union sees the sets of the entries only. -/
theorem unionLoop_relabelled (os : List (Option Entry)) (result : FlatMap Bytes Unit) :
    Store.unionLoop (os.map (Option.map g)) result = Store.unionLoop os result := by
  induction os generalizing result with
  | nil => rfl
  | cons o rest ih =>
    cases o with
    | none => exact ih result
    | some e =>
      rw [List.map_cons, Option.map_some, Store.unionLoop, Store.unionLoop, hset]
      cases setValue.get? e.value with
      | none => exact ih result
      | some set => exact ih _

end algebra

/-- A relabelling that keeps sets keeps their algebra. -/
theorem algebra_relabelled {f : List (Option Entry) → List Bytes}
    (htype : ∀ e, (g e).value.type = e.value.type)
    (hf : ∀ os, f (os.map (Option.map g)) = f os) (os : List (Option Entry)) :
    algebra f (os.map (Option.map g)) = algebra f os := by
  simp only [algebra, List.any_map, hf, Function.comp_def, Option.any_map, htype]

/-- A relabelled entry counts like the one it was. -/
theorem countP_relabelled (os : List (Option Entry)) :
    (os.map (Option.map g)).countP Option.isSome = os.countP Option.isSome := by
  simp only [List.countP_map, Function.comp_def, Option.isSome_map]

/-! ## Programs -/

/-- The reads correspond. -/
def Look.Relabels (P : Entry → Prop) (g : Entry → Entry) (h : Reply → Reply) (l l' : Look) :
    Prop :=
  ∀ o, (∀ e ∈ o, P e) → l'.run (o.map g) = h (l.run o)

/-- The writes correspond. -/
def Update.Relabels (P : Entry → Prop) (g : Entry → Entry) (h : Reply → Reply)
    (u u' : Update) : Prop :=
  ∀ o, (∀ e ∈ o, P e) → u'.run (o.map g) = (h (u.run o).1, (u.run o).2.map (Option.map g))

/-- A read finds data of its type under the label. -/
theorem look_typed {α : Type} {T : ValueKind α} {missing missing' : Reply}
    {render render' : α → Reply} {hmissing : missing.isError = false}
    {hmissing' : missing'.isError = false} {hrender : ∀ d, (render d).isError = false}
    {hrender' : ∀ d, (render' d).isError = false} {gT : α → α}
    (htype : ∀ e, T.get? (g e).value = (T.get? e.value).map gT)
    (hwrong : h .wrongType = .wrongType) (hnone : missing' = h missing)
    (hsome : ∀ d, render' (gT d) = h (render d)) :
    Look.Relabels P g h (.typed T missing render hmissing hrender)
      (.typed T missing' render' hmissing' hrender') := by
  intro o _
  cases o with
  | none => exact hnone
  | some e =>
    rw [Option.map_some, Look.run, Look.run, htype]
    cases T.get? e.value with
    | none => exact hwrong.symm
    | some d => exact hsome d

/-- A typed write finds data of its type under the label. -/
theorem onType_relabels {α : Type} {T : ValueKind α} {gT : α → α} {missing missing' : Effect}
    {present present' : Entry → α → Effect}
    (htype : ∀ e, T.get? (g e).value = (T.get? e.value).map gT)
    (hwrong : h .wrongType = .wrongType)
    (hnone : missing' = (h missing.1, missing.2.map (Option.map g)))
    (hsome : ∀ e d, P e → present' (g e) (gT d) =
      (h (present e d).1, (present e d).2.map (Option.map g))) {o : Option Entry}
    (ho : ∀ e ∈ o, P e) :
    onType T missing' present' (o.map g) =
      (h (onType T missing present o).1, (onType T missing present o).2.map (Option.map g)) := by
  cases o with
  | none => exact hnone
  | some e =>
    rw [Option.map_some, onType, onType, htype]
    -- `g` keeps the type, so both are refused or neither
    cases T.get? e.value with
    | none => exact Prod.ext hwrong.symm rfl
    | some d => exact hsome e d (ho e rfl)

section forms

variable {key : Bytes} {rest rest' args args' : List Bytes}

/-- The program of a read of one key. -/
theorem relabelled_look {parse parse' : UInt64 → List Bytes → Except Reply Look}
    (hparse : Parsed h (Look.Relabels P g h) (parse now rest) (parse' now' rest')) :
    Program.Relabelled P g h ((Spec.look parse).program now (key :: rest))
      ((Spec.look parse').program now' (key :: rest')) := by
  simp only [Spec.program]
  generalize parse now rest = result at hparse
  generalize parse' now' rest' = result' at hparse
  cases hparse with
  | error hreply => exact .ret hreply.symm
  | ok hlook => exact .look key hlook

/-- The program of a write to one key. -/
theorem relabelled_update {parse parse' : UInt64 → List Bytes → Except Reply Update}
    (hparse : Parsed h (Update.Relabels P g h) (parse now rest) (parse' now' rest')) :
    Program.Relabelled P g h ((Spec.update parse).program now (key :: rest))
      ((Spec.update parse').program now' (key :: rest')) := by
  simp only [Spec.program]
  generalize parse now rest = result at hparse
  generalize parse' now' rest' = result' at hparse
  cases hparse with
  | error hreply => exact .ret hreply.symm
  | ok hupdate => exact .step key hupdate

/-- The program of a read of many keys. -/
theorem relabelled_gather {answer : List (Option Entry) → Reply}
    (harity : h .wrongArity = .wrongArity)
    (hanswer : ∀ os, answer (os.map (Option.map g)) = h (answer os)) :
    Program.Relabelled P g h ((Spec.gather answer).program now args)
      ((Spec.gather answer).program now' args) := by
  simp only [Spec.program]
  split_ifs
  · exact .ret harity.symm
  · exact .reads args fun os _ => .ret (hanswer os)

/-- The program of `DEL`. -/
theorem relabelled_delete (harity : h .wrongArity = .wrongArity)
    (hcount : ∀ n : Nat, h (.count n) = .count n) :
    Program.Relabelled P g h (Spec.delete.program now args) (Spec.delete.program now' args) := by
  simp only [Spec.program]
  split_ifs
  · exact .ret harity.symm
  · refine .cells ?_ fun n => (hcount n).symm
    refine List.forall₂_same.mpr fun u hu => ⟨rfl, fun o => ?_⟩
    obtain ⟨key, -, rfl⟩ := List.mem_map.mp hu
    cases o <;> rfl

/-- The program of `MSET`, with values that may be relabelled too. -/
theorem relabelled_assign {a : Bytes → Bytes} (hlength : args'.length = args.length)
    (hpairs : pairs args' = (pairs args).map fun pair => (pair.1, a pair.2))
    (hstring : ∀ value, g ⟨.string value, 0⟩ = ⟨.string (a value), 0⟩)
    (harity : h .wrongArity = .wrongArity) (hok : h .ok = .ok) :
    Program.Relabelled P g h (Spec.assign.program now args) (Spec.assign.program now' args') := by
  simp only [Spec.program, hlength, hpairs]
  split_ifs
  · exact .ret harity.symm
  · refine .cells ?_ fun _ => hok.symm
    rw [List.map_map, List.forall₂_map_left_iff, List.forall₂_map_right_iff]
    exact List.forall₂_same.mpr fun pair _ => ⟨rfl, fun o => Prod.ext rfl
      (congrArg some (hstring pair.2)).symm⟩

/-- The program of `RENAME`. -/
theorem relabelled_move (harity : h .wrongArity = .wrongArity) (hok : h .ok = .ok)
    (hmissing : h .noSuchKey = .noSuchKey) :
    Program.Relabelled P g h (Spec.move.program now args) (Spec.move.program now' args) := by
  rcases args with _ | ⟨src, _ | ⟨dst, _ | ⟨extra, rest⟩⟩⟩
  · exact .ret harity.symm
  · exact .ret harity.symm
  · exact .move src dst hok hmissing
  · exact .ret harity.symm

/-- The program of a command that goes through the live content. -/
theorem relabelled_survey {parse : List Bytes → Except Reply (DataMap → Reply)}
    (herror : ∀ reply, parse args = .error reply → h reply = reply)
    (hanswer : ∀ answer, parse args = .ok answer → ∀ m, answer (m.mapValues g) = h (answer m)) :
    Program.Relabelled P g h ((Spec.survey parse).program now args)
      ((Spec.survey parse).program now' args) := by
  simp only [Spec.program]
  cases hparse : parse args with
  | error reply => exact .ret (herror reply hparse).symm
  | ok answer => exact .scan fun m => .ret (hanswer answer hparse m)

/-- The program of `FLUSHDB`. -/
theorem relabelled_flush (harity : h .wrongArity = .wrongArity) (hok : h .ok = .ok) :
    Program.Relabelled P g h (Spec.flush.program now args) (Spec.flush.program now' args) := by
  simp only [Spec.program]
  split_ifs
  · exact .clear (.ret hok.symm)
  · exact .ret harity.symm

end forms

/-! ## Stores -/

/-- The store with its entries relabelled. -/
def Store.relabel (g : Entry → Entry) (s : Store) : Store := ⟨s.data.mapValues g⟩

variable {s : Store} {p p' : Program Bytes Entry Reply}

/-- A program on a relabelled store. -/
theorem exec_relabelled (hlive : ∀ e, P e → alive now' (g e) = alive now e)
    (hp : Program.Relabelled P g h p p') (hkeeps : p.Keeps P)
    (hs : ∀ key, ∀ e ∈ s.data.find? key, P e) :
    (s.relabel g).exec now' p' = (h (s.exec now p).1, (s.exec now p).2.relabel g) := by
  have hrun := hp.run hlive hkeeps hs
  rw [Store.exec, Store.relabel, hrun]
  rfl

/-- The loop of the sweep, over relabelled entries. -/
theorem sweepLoop_relabelled (hlive : ∀ e, P e → alive now' (g e) = alive now e)
    (visits : Nat) {entries : List (Bytes × Entry)} (hentries : ∀ e ∈ entries, P e.2)
    (data : DataMap) :
    Store.sweepLoop now' visits (entries.map fun e => (e.1, g e.2)) (data.mapValues g) =
      (Store.sweepLoop now visits entries data).mapValues g := by
  -- entry by entry: a relabelled entry is expired when it was
  induction entries generalizing visits data with
  | nil => cases visits <;> rfl
  | cons e rest ih =>
    cases visits with
    | zero => rfl
    | succ visits =>
      obtain ⟨hfirst, hrest⟩ := List.forall_mem_cons.mp hentries
      have hexpired : (g e.2).isExpired now' = e.2.isExpired now :=
        Bool.not_inj (hlive e.2 hfirst)
      rw [List.map_cons, Store.sweepLoop, Store.sweepLoop, ← ih visits hrest, hexpired]
      split_ifs
      · rw [FlatMap.mapValues_erase]
      · rfl

/-- A sweep of a relabelled store. -/
theorem sweepExpired_relabelled (hlive : ∀ e, P e → alive now' (g e) = alive now e)
    (hs : ∀ key, ∀ e ∈ s.data.find? key, P e) :
    (s.relabel g).sweepExpired now' = (s.sweepExpired now).relabel g :=
  congrArg Store.mk (sweepLoop_relabelled hlive 20
    (fun e he => hs e.1 e.2 (s.data.mem_entries_iff.mp he)) s.data)

end Redix
