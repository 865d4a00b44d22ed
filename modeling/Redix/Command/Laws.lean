import Redix.Command.Refinement

/-!
# Laws of the command language

What holds of every row of the table, whatever its arguments: first for the
operations on one key, then for the keyspace programs.

- `Update.run_clean`: a write that answers with an error leaves the entry.
- `Update.run_nonEmpty`: a write never leaves an empty collection.
- `Spec.asks`: what a command can ask of the keyspace, case by case.
- `Asks.within`, `Asks.readOnly`, `Asks.nonEmpty`, `Asks.clean`: a command stays
  within its key arguments, writes only if its form does, leaves no empty
  collection, and changes nothing live when it answers with an error.
-/

namespace Redix

open Keyspace

/-! ## Operations on one key -/

variable {α : Type} {o : Option Entry}

/-- The three cases of a typed write. -/
theorem onType_cases {P : Option Entry → Effect → Prop} {T : ValueKind α}
    {missing : Effect} {present : Entry → α → Effect} (hmissing : P none missing)
    (hwrong : ∀ e, e.value.type ≠ T.type → P (some e) (.wrongType, some (some e)))
    (hpresent : ∀ e d, e.value = T.wrap d → P (some e) (present e d)) :
    P o (onType T missing present o) := by
  cases o with
  | none => exact hmissing
  | some e =>
    simp only [onType]
    cases hget : T.get? e.value with
    | none => exact hwrong e ((T.get?_eq_none e.value).mp hget)
    | some d => exact hpresent e d ((T.get?_eq_some e.value d).mp hget)

/-! ### Errors change nothing -/

/-- An effect that is an error only if it leaves the entry as it is. -/
def CleanOn (o : Option Entry) (effect : Effect) : Prop :=
  effect.1.isError = true → effect.2 = some o

/-- What is written back as it was is clean. -/
theorem cleanOn_self {reply : Reply} : CleanOn o (reply, some o) := fun _ => rfl

/-- Without an error, any write is clean. -/
theorem cleanOn_ok {reply : Reply} {written : Option (Option Entry)}
    (hok : reply.isError = false) : CleanOn o (reply, written) := by
  intro herror
  have : reply.isError = true := herror
  rw [hok] at this
  cases this

/-- A write that answers with an error leaves the entry as it is. -/
theorem Update.run_clean (u : Update) : CleanOn o (u.run o) := by
  -- each update refuses without a change, or does not refuse
  cases u with
  | set value opts =>
    simp only [run]
    split_ifs
    · exact cleanOn_ok rfl
    · exact cleanOn_ok rfl
  | count initial next =>
    refine onType_cases ?_ (fun _ _ => cleanOn_self) fun e text _ => ?_
    · cases initial with
      | none => exact cleanOn_self
      | some n => exact cleanOn_ok rfl
    · cases (parseI64 text).bind next with
      | none => exact cleanOn_self
      | some n => exact cleanOn_ok rfl
  | append suffix =>
    exact onType_cases (cleanOn_ok rfl) (fun _ _ => cleanOn_self) fun _ _ _ => cleanOn_ok rfl
  | getset value =>
    exact onType_cases (cleanOn_ok rfl) (fun _ _ => cleanOn_self) fun _ _ _ => cleanOn_ok rfl
  | expire deadline => cases o <;> exact cleanOn_ok rfl
  | persist => cases o <;> exact cleanOn_ok rfl
  | add T fresh grow hgrow =>
    exact onType_cases (cleanOn_ok rfl) (fun _ _ => cleanOn_self) fun _ _ _ => cleanOn_ok rfl
  | remove T elems hT =>
    exact onType_cases (cleanOn_ok rfl) (fun _ _ => cleanOn_self) fun _ _ _ => cleanOn_ok rfl
  | pop take =>
    refine onType_cases (cleanOn_ok rfl) (fun _ _ => cleanOn_self) fun e list _ => ?_
    cases take list with
    | none => exact cleanOn_ok rfl
    | some taken => exact cleanOn_ok rfl

/-! ### No empty collections -/

/-- The entry holds no empty collection. -/
def Entry.NonEmpty (e : Entry) : Prop := e.value.NonEmpty

/-- An effect that writes no empty collection where there was none. -/
def NonEmptyOn (o : Option Entry) (effect : Effect) : Prop :=
  (∀ e ∈ o, e.NonEmpty) → ∀ o' ∈ effect.2, ∀ e ∈ o', e.NonEmpty

/-- An entry that is not empty may be written. -/
theorem nonEmptyOn_some {o : Option Entry} {reply : Reply} {e : Entry} (he : e.NonEmpty) :
    NonEmptyOn o (reply, some (some e)) := by
  rintro - o' ⟨⟩ e' ⟨⟩
  exact he

/-- An entry may be removed. -/
theorem nonEmptyOn_none {o : Option Entry} {reply : Reply} :
    NonEmptyOn o (reply, some none) := by
  rintro - o' ⟨⟩ e' ⟨⟩

/-- An entry may be written back. -/
theorem nonEmptyOn_self {o : Option Entry} {reply : Reply} :
    NonEmptyOn o (reply, some o) := by
  rintro h o' ⟨⟩
  exact h

/-- A write never leaves an empty collection behind. -/
theorem Update.run_nonEmpty (u : Update) : NonEmptyOn o (u.run o) := by
  cases u with
  | set value opts =>
    simp only [run]
    split_ifs
    · rintro - o' ⟨⟩
    · exact nonEmptyOn_some trivial
  | count initial next =>
    refine onType_cases ?_ (fun _ _ => nonEmptyOn_self) fun e text _ => ?_
    · cases initial with
      | none => exact nonEmptyOn_none
      | some n => exact nonEmptyOn_some trivial
    · cases (parseI64 text).bind next with
      | none => exact nonEmptyOn_self
      | some n => exact nonEmptyOn_some trivial
  | append suffix =>
    exact onType_cases (nonEmptyOn_some trivial) (fun _ _ => nonEmptyOn_self)
      fun _ _ _ => nonEmptyOn_some trivial
  | getset value =>
    exact onType_cases (nonEmptyOn_some trivial) (fun _ _ => nonEmptyOn_self)
      fun _ _ _ => nonEmptyOn_some trivial
  | expire deadline =>
    cases o with
    | none => exact nonEmptyOn_none
    | some e => exact fun h => nonEmptyOn_some (h e rfl) h
  | persist =>
    cases o with
    | none => exact nonEmptyOn_none
    | some e => exact fun h => nonEmptyOn_some (h e rfl) h
  | add T fresh grow hgrow =>
    exact onType_cases (nonEmptyOn_some (hgrow fresh)) (fun _ _ => nonEmptyOn_self)
      fun _ d _ => nonEmptyOn_some (hgrow d)
  | remove T elems hT =>
    refine onType_cases nonEmptyOn_none (fun _ _ => nonEmptyOn_self) fun e d _ => ?_
    -- what is left is erased if it is empty, and written back if it is not
    cases hempty : (FlatMap.eraseAll elems d).2.isEmpty with
    | true =>
      simp only [hempty]
      exact nonEmptyOn_none
    | false =>
      simp only [hempty]
      exact nonEmptyOn_some (hT _ hempty)
  | pop take =>
    refine onType_cases nonEmptyOn_none (fun _ _ => nonEmptyOn_self) fun e list _ => ?_
    cases take list with
    | none => exact nonEmptyOn_none
    | some taken =>
      cases hempty : taken.2.isEmpty with
      | true =>
        simp only [hempty]
        exact nonEmptyOn_none
      | false =>
        simp only [hempty]
        exact nonEmptyOn_some (by simpa [Entry.NonEmpty, RedisValue.NonEmpty] using hempty)

/-! ## Programs -/

/-- Which arguments of a command are keys. -/
inductive KeyArgs where
  | none
  | first
  | firstTwo
  | everyOther
  | all
  /-- The command is about the whole keyspace. -/
  | whole
deriving DecidableEq

/-- Arguments `0, 2, 4, ...`. -/
def everyOther : List Bytes → List Bytes
  | [] => []
  | [arg] => [arg]
  | arg :: _ :: rest => arg :: everyOther rest

/-- The keys among the arguments. -/
def KeyArgs.of : KeyArgs → List Bytes → List Bytes
  | none, _ => []
  | first, args => args.take 1
  | firstTwo, args => args.take 2
  | everyOther, args => Redix.everyOther args
  | all, args => args
  | whole, _ => []

/-- The key arguments of a command, by its form. -/
def Spec.keyArgs : Spec → KeyArgs
  | talk _ => .none
  | look _ => .first
  | update _ => .first
  | gather _ => .all
  | delete => .all
  | assign => .everyOther
  | move => .firstTwo
  | survey _ => .whole
  | flush => .whole

/-- Whether a command can write, by its form. -/
def Spec.writes : Spec → Bool
  | talk _ => false
  | look _ => false
  | gather _ => false
  | survey _ => false
  | _ => true

/-- The keys of pairs are every other argument. -/
theorem pairs_fst_mem {args : List Bytes} {pair : Bytes × Bytes} (h : pair ∈ pairs args) :
    pair.1 ∈ everyOther args := by
  fun_induction pairs args with
  | case1 first second rest ih =>
    rcases List.mem_cons.mp h with rfl | h
    · exact List.mem_cons_self
    · exact List.mem_cons_of_mem first (ih h)
  | case2 args hargs => cases h

/-- What a command can ask of the keyspace on given arguments: just a reply, or
what its form says. -/
inductive Spec.Asks (now : UInt64) : Spec → List Bytes → Program Bytes Entry Reply → Prop
  | reply (spec : Spec) (args : List Bytes) (reply : Reply) : Asks now spec args (.ret reply)
  | look {parse : UInt64 → List Bytes → Except Reply Look} {key : Bytes} {rest : List Bytes}
      {l : Look} (h : parse now rest = .ok l) :
      Asks now (.look parse) (key :: rest) (.look key l.run)
  | update {parse : UInt64 → List Bytes → Except Reply Update} {key : Bytes}
      {rest : List Bytes} {u : Update} (h : parse now rest = .ok u) :
      Asks now (.update parse) (key :: rest) (.step key u.run)
  | gather (answer : List (Option Entry) → Reply) (args : List Bytes) :
      Asks now (.gather answer) args (.reads args fun os => .ret (answer os))
  | delete (args : List Bytes) :
      Asks now .delete args (.cells (args.map fun key => (key, removal)) fun n => .count n)
  | assign (args : List Bytes) :
      Asks now .assign args
        (.cells ((pairs args).map fun pair =>
          (pair.1, fun _ => (0, some ⟨.string pair.2, 0⟩))) fun _ => .ok)
  | move (src dst : Bytes) :
      Asks now .move [src, dst] (.move src dst .ok .noSuchKey)
  | survey (parse : List Bytes → Except Reply (DataMap → Reply)) (args : List Bytes)
      (answer : DataMap → Reply) :
      Asks now (.survey parse) args (.scan fun m => .ret (answer m))
  | flush (args : List Bytes) : Asks now .flush args (.clear (.ret .ok))

/-- **The program of a row** asks of the store what the row's form says. -/
theorem Spec.asks (now : UInt64) (spec : Spec) (args : List Bytes) :
    spec.Asks now args (spec.program now args) := by
  -- arguments that are refused ask nothing of the store
  cases spec with
  | talk answer => exact .reply _ _ _
  | look parse =>
    cases args with
    | nil => exact .reply _ _ _
    | cons key rest =>
      simp only [program]
      cases hparse : parse now rest with
      | error reply => exact .reply _ _ _
      | ok l => exact .look hparse
  | update parse =>
    cases args with
    | nil => exact .reply _ _ _
    | cons key rest =>
      simp only [program]
      cases hparse : parse now rest with
      | error reply => exact .reply _ _ _
      | ok u => exact .update hparse
  | gather answer =>
    simp only [program]
    split_ifs
    · exact .reply _ _ _
    · exact .gather answer args
  | delete =>
    simp only [program]
    split_ifs
    · exact .reply _ _ _
    · exact .delete args
  | assign =>
    simp only [program]
    split_ifs
    · exact .reply _ _ _
    · exact .assign args
  | move =>
    rcases args with _ | ⟨src, _ | ⟨dst, _ | ⟨extra, rest⟩⟩⟩
    · exact .reply _ _ _
    · exact .reply _ _ _
    · exact .move src dst
    · exact .reply _ _ _
  | survey parse =>
    simp only [program]
    cases parse args with
    | error reply => exact .reply _ _ _
    | ok answer => exact .survey parse args answer
  | flush =>
    simp only [program]
    split_ifs
    · exact .flush args
    · exact .reply _ _ _

namespace Spec.Asks

variable {now : UInt64} {spec : Spec} {args : List Bytes} {p : Program Bytes Entry Reply}

/-- A command stays within its key arguments. -/
theorem within (h : spec.Asks now args p) (hkeys : spec.keyArgs ≠ .whole) :
    p.Within (· ∈ spec.keyArgs.of args) := by
  cases h with
  | reply => trivial
  | look h => exact ⟨List.mem_cons_self, fun _ => trivial⟩
  | update h => exact Program.within_step List.mem_cons_self _
  | gather => exact Program.within_reads (fun _ h => h) fun _ => trivial
  | delete =>
    refine Program.within_cells (fun u hu => ?_) _
    obtain ⟨key, hkey, rfl⟩ := List.mem_map.mp hu
    exact hkey
  | assign =>
    refine Program.within_cells (fun u hu => ?_) _
    obtain ⟨pair, hpair, rfl⟩ := List.mem_map.mp hu
    exact pairs_fst_mem hpair
  | move src dst =>
    exact Program.within_move List.mem_cons_self
      (List.mem_cons_of_mem src List.mem_cons_self) _ _
  | survey => exact absurd rfl hkeys
  | flush => exact absurd rfl hkeys

/-- A command that is not a write is read-only. -/
theorem readOnly (h : spec.Asks now args p) (hwrites : spec.writes = false) :
    p.ReadOnly := by
  cases h with
  | reply => trivial
  | look h => exact fun _ => trivial
  | gather => exact Program.readOnly_reads fun _ => trivial
  | survey => exact fun _ => trivial
  | update h => cases hwrites
  | delete => cases hwrites
  | assign => cases hwrites
  | move => cases hwrites
  | flush => cases hwrites

/-- No command leaves an empty collection behind. -/
theorem nonEmpty (h : spec.Asks now args p) : p.Keeps Entry.NonEmpty := by
  cases h with
  | reply => trivial
  | look h => exact fun _ _ => trivial
  -- the update carries that it leaves no empty collection
  | @update parse key rest u h => exact Program.keeps_step fun _ => u.run_nonEmpty
  | gather => exact Program.keeps_reads fun _ => trivial
  | delete =>
    refine Program.keeps_cells (fun u hu o _ e he => ?_) _
    obtain ⟨key, -, rfl⟩ := List.mem_map.mp hu
    cases o <;> cases he
  | assign =>
    refine Program.keeps_cells (fun u hu o _ e he => ?_) _
    obtain ⟨pair, -, rfl⟩ := List.mem_map.mp hu
    cases he
    trivial
  | move src dst => exact Program.keeps_move src dst _ _
  | survey => exact fun _ => trivial
  | flush => trivial

/-- A command that answers with an error leaves the live content as it is. -/
theorem clean (h : spec.Asks now args p) (data : DataMap)
    (herror : (p.run (alive now) data).1.isError = true) :
    purge (alive now) (p.run (alive now) data).2 = purge (alive now) data := by
  cases h with
  | reply => rfl
  | look h => rfl
  | @update parse key rest u h =>
    rw [Program.run_step] at herror ⊢
    rw [u.run_clean herror]
    exact purge_put_live (alive now) data key
  | gather answer =>
    have hreadOnly : (Program.reads args fun os => .ret (answer os)).ReadOnly :=
      Program.readOnly_reads fun _ => trivial
    rw [Program.run_readOnly _ hreadOnly]
  | delete =>
    -- the reply is a count
    rw [Program.run_cells] at herror
    cases herror
  | assign =>
    rw [Program.run_cells] at herror
    cases herror
  | move src dst =>
    have hsrc := purge_put_live (alive now) data src
    simp only [Program.move, Program.run] at herror ⊢
    cases hlive : (data.find? src).filter (alive now) with
    | none =>
      -- on an error the search may still have erased the source, which was expired
      rw [hlive] at hsrc
      exact hsrc
    | some e =>
      rw [hlive] at herror
      cases herror
  | survey => rfl
  | flush => cases herror

end Spec.Asks

end Redix
