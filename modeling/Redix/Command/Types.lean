import Redix.Command.Runs

/-!
# The type of a key

- `Look.run_wrongType`, `Update.run_wrongType`: an operation that demands a type
  answers with the wrong-type error exactly for a live entry of another type.
- `Event.keepsType`: a step keeps the type of a live key, or overwrites the key,
  or removes it.
- `type_change_interrupted`: hence in a run the type of a key changes only where
  the key is overwritten, removed or expires.
-/

namespace Redix

open Keyspace

variable {α : Type} {now : UInt64} {s : Store} {o : Option Entry}

/-! ## Operations on one key -/

/-- The entry is there and holds a value of another type. -/
def OtherType (T : ValueType) (o : Option Entry) : Prop :=
  ∃ e, o = some e ∧ e.value.type ≠ T

/-- No entry, no other type. -/
theorem not_otherType_none (T : ValueType) : ¬ OtherType T none := by
  rintro ⟨e, ⟨⟩, -⟩

/-- An entry of another type is one. -/
theorem otherType_some {T : ValueType} {e : Entry} (h : e.value.type ≠ T) :
    OtherType T (some e) :=
  ⟨e, rfl, h⟩

/-- An entry of the type is none of another. -/
theorem not_otherType_wrap {T : ValueKind α} {e : Entry} {d : α} (h : e.value = T.wrap d) :
    ¬ OtherType T.type (some e) := by
  rintro ⟨_, ⟨⟩, hne⟩
  have hsome : T.get? e.value = some d := (T.get?_eq_some e.value d).mpr h
  rw [(T.get?_eq_none e.value).mpr hne] at hsome
  cases hsome

/-- **Wrong type**: a typed read answers with the wrong-type error exactly for a
live entry of another type. -/
theorem Look.run_wrongType {l : Look} {T : ValueType} (h : l.type? = some T) :
    l.run o = .wrongType ↔ OtherType T o := by
  cases l with
  | untyped answer => cases h
  | typed K missing render hmissing hrender =>
    cases h
    cases o with
    | none =>
      refine iff_of_false (fun heq => ?_) (not_otherType_none K.type)
      rw [run] at heq
      rw [heq] at hmissing
      cases hmissing
    | some e =>
      simp only [run]
      -- the value has the type asked for and is rendered, or it is refused
      cases hget : K.get? e.value with
      | none => exact iff_of_true rfl (otherType_some ((K.get?_eq_none _).mp hget))
      | some d =>
        refine iff_of_false (fun heq => ?_)
          (not_otherType_wrap ((K.get?_eq_some _ d).mp hget))
        have hr := hrender d
        rw [show render d = .wrongType from heq] at hr
        cases hr

/-- An effect that is the wrong-type error exactly for an entry of another type. -/
def TypedOn (T : ValueType) (o : Option Entry) (effect : Effect) : Prop :=
  effect.1 = .wrongType ↔ OtherType T o

/-- An operation on a type answers with the wrong-type error for other types, if its own replies
are none. -/
theorem onType_typed {T : ValueKind α} {missing : Effect} {present : Entry → α → Effect}
    (hmissing : missing.1 ≠ .wrongType) (hpresent : ∀ e d, (present e d).1 ≠ .wrongType) :
    TypedOn T.type o (onType T missing present o) :=
  onType_cases (iff_of_false hmissing (not_otherType_none T.type))
    (fun _ hne => iff_of_true rfl (otherType_some hne))
    fun e d he => iff_of_false (hpresent e d) (not_otherType_wrap he)

/-- What is no error is no wrong-type error. -/
theorem Reply.ne_wrongType {r : Reply} (hok : r.isError = false) : r ≠ .wrongType := by
  rintro rfl
  cases hok

/-- The two errors are told apart. -/
theorem Reply.notInteger_ne_wrongType : Reply.notInteger ≠ .wrongType := by
  simp [Reply.notInteger, Reply.wrongType]

/-- **Wrong type**, for writes. -/
theorem Update.run_wrongType {u : Update} {T : ValueType} (h : u.type? = some T) :
    (u.run o).1 = .wrongType ↔ OtherType T o := by
  cases u with
  | set value opts => cases h
  | count initial next =>
    cases h
    refine onType_typed ?_ fun e text => ?_
    · cases initial with
      | none => exact Reply.notInteger_ne_wrongType
      | some n => exact Reply.ne_wrongType rfl
    · cases (parseI64 text).bind next with
      | none => exact Reply.notInteger_ne_wrongType
      | some n => exact Reply.ne_wrongType rfl
  | append suffix =>
    cases h
    exact onType_typed (Reply.ne_wrongType rfl) fun _ _ =>
      Reply.ne_wrongType rfl
  | getset value =>
    cases h
    exact onType_typed (Reply.ne_wrongType rfl) fun _ _ =>
      Reply.ne_wrongType rfl
  | expire deadline => cases h
  | persist => cases h
  | add K fresh grow hgrow =>
    cases h
    exact onType_typed (Reply.ne_wrongType rfl) fun _ _ =>
      Reply.ne_wrongType rfl
  | remove K elems hK =>
    cases h
    exact onType_typed (Reply.ne_wrongType rfl) fun _ _ =>
      Reply.ne_wrongType rfl
  | pop take =>
    cases h
    refine onType_typed (Reply.ne_wrongType rfl) fun e list => ?_
    cases take list <;> exact Reply.ne_wrongType rfl

/-! ### Kept types -/

/-- What is wrapped has the type. -/
theorem ValueKind.type_wrap (T : ValueKind α) (d : α) : (T.wrap d).type = T.type := by
  by_contra hne
  have hsome : T.get? (T.wrap d) = some d := T.get?_wrap d
  rw [(T.get?_eq_none _).mpr hne] at hsome
  cases hsome

/-- The writes that can end the life of an entry: `EXPIRE` and `PEXPIRE` with a
deadline that is not in the future, and the removals from collections. -/
def Update.Ends : Update → Prop
  | expire _ => True
  | remove _ _ _ => True
  | pop _ => True
  | _ => False

/-- The entry that is left is live and has the old type; or none is left and the
write is one that `ends`. -/
def Settled (now : UInt64) (ends : Prop) (e : Entry) (o : Option Entry) : Prop :=
  (∃ e', o.filter (alive now) = some e' ∧ e'.value.type = e.value.type) ∨
  (o.filter (alive now) = none ∧ ends)

/-- A live entry of the old type is settled. -/
theorem settled_some {ends : Prop} {e e' : Entry} (he' : alive now e' = true)
    (htype : e'.value.type = e.value.type) : Settled now ends e (some e') :=
  .inl ⟨e', by simp [Option.filter, he'], htype⟩

/-- Nothing is settled, if the write may end the entry. -/
theorem settled_none {e : Entry} : Settled now True e none := .inr ⟨rfl, trivial⟩

/-- An effect that writes a settled entry over a live one. -/
def SettlesOn (now : UInt64) (ends : Prop) (o : Option Entry) (effect : Effect) : Prop :=
  ∀ e, o = some e → alive now e = true → ∃ o', effect.2 = some o' ∧ Settled now ends e o'

/-- An operation on a type settles what it is about, and leaves other types alone. -/
theorem onType_settles {T : ValueKind α} {ends : Prop} {missing : Effect}
    {present : Entry → α → Effect}
    (hpresent : ∀ e d, e.value.type = T.type → alive now e = true →
      ∃ o', (present e d).2 = some o' ∧ Settled now ends e o') :
    SettlesOn now ends o (onType T missing present o) := by
  refine onType_cases ?_ ?_ ?_
  · rintro e ⟨⟩
  · rintro e - _ ⟨⟩ he
    exact ⟨some e, rfl, settled_some he rfl⟩
  · rintro e d hd _ ⟨⟩ he
    exact hpresent e d (hd ▸ T.type_wrap d) he

/-- Without a deadline an entry is live. -/
theorem alive_of_noDeadline (value : RedisValue) : alive now ⟨value, 0⟩ = true := rfl

/-- **Types are kept.** A write to a live key other than the unconditional one
leaves a live entry of the same type, or ends it. -/
theorem Update.run_settles (u : Update) (hset : ∀ value opts, u ≠ .set value opts) :
    SettlesOn now u.Ends o (u.run o) := by
  cases u with
  | set value opts => exact absurd rfl (hset value opts)
  | count initial next =>
    refine onType_settles fun e text htype he => ?_
    cases (parseI64 text).bind next with
    | none => exact ⟨_, rfl, settled_some he rfl⟩
    | some n => exact ⟨_, rfl, settled_some he htype.symm⟩
  | append suffix =>
    exact onType_settles fun e text htype he => ⟨_, rfl, settled_some he htype.symm⟩
  | getset value =>
    exact onType_settles fun e text htype he =>
      ⟨_, rfl, settled_some (alive_of_noDeadline _) htype.symm⟩
  | expire deadline =>
    rintro e rfl he
    refine ⟨_, rfl, ?_⟩
    -- the new deadline may already have passed
    cases hlive : alive now { e with expiresAtMs := deadline } with
    | true => exact settled_some hlive rfl
    | false => exact .inr ⟨by simp [Option.filter, hlive], trivial⟩
  | persist =>
    rintro e rfl he
    exact ⟨_, rfl, settled_some (alive_of_noDeadline _) rfl⟩
  | add T fresh grow hgrow =>
    exact onType_settles fun e d htype he =>
      ⟨_, rfl, settled_some he ((T.type_wrap _).trans htype.symm)⟩
  | remove T elems hT =>
    refine onType_settles fun e d htype he => ⟨_, rfl, ?_⟩
    split_ifs
    · exact settled_none
    · exact settled_some he ((T.type_wrap _).trans htype.symm)
  | pop take =>
    refine onType_settles fun e list htype he => ?_
    cases take list with
    | none => exact ⟨_, rfl, settled_none⟩
    | some taken =>
      refine ⟨_, rfl, ?_⟩
      split_ifs
      · exact settled_none
      · exact settled_some he htype.symm

/-! ## What the rows demand -/

/-- Every write the row can parse satisfies `P`. -/
def Spec.Updates (P : Update → Prop) : Spec → Prop
  | update parse => ∀ now rest u, parse now rest = .ok u → P u
  | _ => True

/-- The commands that a write serves. -/
def Update.names : Update → List Bytes
  | set _ _ => ["SET"].map ascii
  | count _ _ => ["DECR", "DECRBY", "INCR", "INCRBY"].map ascii
  | append _ => ["APPEND"].map ascii
  | getset _ => ["GETSET"].map ascii
  | expire _ => ["EXPIRE", "PEXPIRE"].map ascii
  | persist => ["PERSIST"].map ascii
  | add _ _ _ _ => ["HSET", "LPUSH", "RPUSH", "SADD"].map ascii
  | remove _ _ _ => ["HDEL", "SREM"].map ascii
  | pop _ => ["LPOP", "RPOP"].map ascii

/-- The write can stand under the name. -/
def Update.Serves (name : Bytes) (u : Update) : Prop := name ∈ u.names

/-- The names a write can stand under, as far as overwriting and ending an entry
go. -/
def Update.Named (name : Bytes) : Update → Prop
  | set _ _ => name = ascii "SET"
  | expire _ => name ∈ ["EXPIRE", "PEXPIRE"].map ascii
  | remove _ _ _ => name ∈ ["HDEL", "SREM"].map ascii
  | pop _ => name ∈ ["LPOP", "RPOP"].map ascii
  | _ => True

section updates

variable {P : Update → Prop}

/-- A row without arguments parses one write. -/
theorem updates_noArgs {u : Update} (h : P u) :
    (Spec.update fun _ => noArgs u).Updates P := by
  intro now rest v hparse
  cases rest with
  | nil => cases hparse; exact h
  | cons => cases hparse

/-- A row with one argument parses what the argument stands for. -/
theorem updates_oneArg {f : UInt64 → Bytes → Except Reply Update}
    (h : ∀ now arg u, f now arg = .ok u → P u) :
    (Spec.update fun now => oneArg (f now)).Updates P := by
  intro now rest u hparse
  match rest with
  | [] => cases hparse
  | [arg] => exact h now arg u hparse
  | _ :: _ :: _ => cases hparse

/-- A row with arguments parses a write for them. -/
theorem updates_someArgs {f : (args : List Bytes) → args ≠ [] → Update}
    (h : ∀ args hargs, P (f args hargs)) :
    (Spec.update fun _ => someArgs f).Updates P := by
  intro now rest u hparse
  simp only [someArgs] at hparse
  split_ifs at hparse
  cases hparse
  exact h _ _

/-- A write with a signed number. -/
theorem signed_ok {f : Int64 → Update} (h : ∀ n, P (f n)) {arg : Bytes} {u : Update}
    (hparse : signed f arg = .ok u) : P u := by
  unfold signed at hparse
  split at hparse <;> cases hparse
  exact h _

/-- A write with an unsigned number. -/
theorem unsigned_ok {f : UInt64 → Update} (h : ∀ n, P (f n)) {arg : Bytes} {u : Update}
    (hparse : unsigned f arg = .ok u) : P u := by
  unfold unsigned at hparse
  split at hparse <;> cases hparse
  exact h _

/-- What holds of all writes of a row may be weakened. -/
theorem updates_mono {Q : Update → Prop} (h : ∀ u, P u → Q u) {spec : Spec}
    (hspec : spec.Updates P) : spec.Updates Q := by
  cases spec with
  | update parse => exact fun now rest u hparse => h u (hspec now rest u hparse)
  | talk | look | gather | delete | assign | move | survey | flush => trivial

end updates

theorem set_serves : Spec.set.Updates (Update.Serves (ascii "SET")) := by
  intro now rest u hparse
  cases rest with
  | nil => cases hparse
  | cons value options =>
    simp only at hparse
    split at hparse <;> cases hparse
    exact List.mem_singleton_self _

theorem hset_serves : Spec.hset.Updates (Update.Serves (ascii "HSET")) := by
  intro now rest u hparse
  simp only at hparse
  split_ifs at hparse
  cases hparse
  show ascii "HSET" ∈ List.map ascii _
  decide

/-- Every write a row can parse serves the row's command. -/
theorem specTable_serves : ∀ row ∈ specTable, row.2.Updates (Update.Serves row.1) := by
  simp only [specTable, List.forall_mem_cons, List.not_mem_nil, false_imp_iff,
    implies_true, and_true]
  -- one goal for each row; they differ in the form of the parser
  repeat' apply And.intro
  all_goals
    first
    | exact trivial
    | exact set_serves
    | exact hset_serves
    | exact updates_noArgs (by show ascii _ ∈ List.map ascii _; decide)
    | exact updates_oneArg fun _ _ _ h => by
        cases h; show ascii _ ∈ List.map ascii _; decide
    | exact updates_oneArg fun _ _ _ => signed_ok fun _ => by
        show ascii _ ∈ List.map ascii _; decide
    | exact updates_oneArg fun _ _ _ => unsigned_ok fun _ => by
        show ascii _ ∈ List.map ascii _; decide
    | exact updates_someArgs fun _ _ => by show ascii _ ∈ List.map ascii _; decide

/-- The row of `SET` is the only one with an unconditional write, and the rows
that can end an entry are the ones named for it. -/
theorem specTable_named : ∀ row ∈ specTable, row.2.Updates (Update.Named row.1) := by
  intro row hrow
  refine updates_mono (fun u hname => ?_) (specTable_serves row hrow)
  cases u with
  | set value opts => exact List.mem_singleton.mp hname
  | expire | remove | pop => exact hname
  | count | append | getset | persist | add => trivial

/-! ## Steps -/

/-- The command gives the key a new value, whatever it held. -/
def Overwrites (cmd : Command) (key : Bytes) : Prop :=
  (cmd.name = ascii "SET" ∧ cmd.args.head? = some key) ∨
  (cmd.name = ascii "MSET" ∧ key ∈ everyOther cmd.args) ∨
  (cmd.name = ascii "RENAME" ∧ cmd.args[1]? = some key)

/-- The command can remove the key: by name, by flushing, by renaming it away, by
taking its last element, or by a deadline that is not in the future. -/
def Removes (cmd : Command) (key : Bytes) : Prop :=
  (cmd.name = ascii "DEL" ∧ key ∈ cmd.args) ∨
  cmd.name = ascii "FLUSHDB" ∨
  (cmd.name = ascii "RENAME" ∧ cmd.args.head? = some key) ∨
  (cmd.name ∈ ["LPOP", "RPOP", "HDEL", "SREM"].map ascii ∧ cmd.args.head? = some key) ∨
  (cmd.name ∈ ["EXPIRE", "PEXPIRE"].map ascii ∧ cmd.args.head? = some key)

/-- What a step does to a live entry: the key keeps a live entry of its type, or
it is overwritten, or it is removed. -/
def KeepsType (now : UInt64) (event : Event) (s : Store) (key : Bytes) (e : Entry) : Prop :=
  (∃ e', findLive now (event.step now s).2.data key = some e' ∧
    e'.value.type = e.value.type) ∨
  ∃ cmd, event = .command cmd ∧
    (Overwrites cmd key ∨
      (Removes cmd key ∧ findLive now (event.step now s).2.data key = none))

/-- The names of the rows with a form of their own. -/
theorem specTable_forms : ∀ row ∈ specTable,
    (row.2.keyArgs = .everyOther → row.1 = ascii "MSET") ∧
    (row.2.keyArgs = .firstTwo → row.1 = ascii "RENAME") ∧
    (row.2.writes = true → row.2.keyArgs = .all → row.1 = ascii "DEL") ∧
    (row.2.writes = true → row.2.keyArgs = .whole → row.1 = ascii "FLUSHDB") := by
  decide

/-- After removals, none of the keys is there. -/
theorem find?_removals (now : UInt64) {key : Bytes} (fin : Nat → Reply) (keys : List Bytes)
    (data : DataMap) (h : key ∈ keys) :
    ((Program.cells (keys.map fun key => (key, removal)) fin).run (alive now) data).2.find?
      key = none := by
  refine Program.find?_cells (Q := (· = none)) (alive now) (fun u hu _ o => ?_) fin data ?_
  · obtain ⟨k, -, rfl⟩ := List.mem_map.mp hu
    cases o <;> rfl
  · exact .inl (List.mem_map.mpr ⟨_, List.mem_map_of_mem h, rfl⟩)

/-- A command that does not touch the key's entry keeps it. -/
theorem keepsType_of_find? {cmd : Command} {key : Bytes} {e : Entry}
    (hlive : findLive now s.data key = some e)
    (h : (dispatch now cmd s).2.data.find? key = s.data.find? key) :
    KeepsType now (.command cmd) s key e := by
  refine .inl ⟨e, ?_, rfl⟩
  rw [findLive_eq] at hlive ⊢
  exact (congrArg (Option.filter (alive now)) h).trans hlive

/-- A write that can end an entry stands under a name that says so. -/
theorem removes_of_ends {name key : Bytes} {rest : List Bytes} {u : Update}
    (hnamed : u.Named name) (hends : u.Ends) : Removes ⟨name, key :: rest⟩ key := by
  have hlist {names : List String} (hsub : names ⊆ ["LPOP", "RPOP", "HDEL", "SREM"])
      (h : name ∈ names.map ascii) : Removes ⟨name, key :: rest⟩ key :=
    .inr (.inr (.inr (.inl ⟨List.map_subset ascii hsub h, rfl⟩)))
  cases u with
  | expire deadline => exact .inr (.inr (.inr (.inr ⟨hnamed, rfl⟩)))
  | remove T elems hT => exact hlist (by decide) hnamed
  | pop take => exact hlist (by decide) hnamed
  | set | count | append | getset | persist | add => exact hends.elim

/-- A write to one key. -/
theorem update_keepsType {name key : Bytes} {rest : List Bytes} {u : Update} {e : Entry}
    (hnamed : u.Named name) (hlive : findLive now s.data key = some e)
    (hdata : (dispatch now ⟨name, key :: rest⟩ s).2.data =
      (s.exec now (.step key u.run)).2.data) :
    KeepsType now (.command ⟨name, key :: rest⟩) s key e := by
  by_cases hset : ∃ value opts, u = .set value opts
  · obtain ⟨value, opts, rfl⟩ := hset
    exact .inr ⟨_, rfl, .inl (.inl ⟨hnamed, rfl⟩)⟩
  · obtain ⟨o', hwrite, hsettled⟩ := u.run_settles
      (fun value opts h => hset ⟨value, opts, h⟩) e hlive (alive_of_findLive hlive)
    have hafter : findLive now (dispatch now ⟨name, key :: rest⟩ s).2.data key =
        o'.filter (alive now) := by
      rw [hdata, exec_step, hwrite, findLive_eq]
      exact congrArg (Option.filter (alive now)) (FlatMap.find?_put_self _ _ _)
    rcases hsettled with ⟨e', he', htype⟩ | ⟨hnone, hends⟩
    · exact .inl ⟨e', hafter.trans he', htype⟩
    · exact .inr ⟨_, rfl, .inr ⟨removes_of_ends hnamed hends, hafter.trans hnone⟩⟩

/-- **One step**: a command keeps the type of a live key, or overwrites the key,
or removes it. -/
theorem command_keepsType (cmd : Command) {key : Bytes} {e : Entry}
    (hlive : findLive now s.data key = some e) :
    KeepsType now (.command cmd) s key e := by
  rcases dispatch_touches now cmd s key with
    hsame | ⟨spec, p, hrow, hasks, hwrites, hmem, hrun⟩
  · exact keepsType_of_find? hlive hsame
  · obtain ⟨hassign, hmove, hdelete, hflush⟩ := specTable_forms _ hrow
    have hnamed := specTable_named _ hrow
    obtain ⟨name, args⟩ := cmd
    cases hasks with
    | reply => exact keepsType_of_find? hlive (by rw [hrun]; rfl)
    | look h => cases hwrites
    | gather => cases hwrites
    | survey => cases hwrites
    | @update parse k rest u h =>
      obtain rfl : key = k := List.mem_singleton.mp (hmem nofun)
      exact update_keepsType (hnamed now rest u h) hlive (by rw [hrun])
    | delete =>
      have hkey := hmem nofun
      refine .inr ⟨_, rfl, .inr ⟨.inl ⟨hdelete rfl rfl, hkey⟩, ?_⟩⟩
      simp only [Event.step, hrun, findLive_eq]
      exact congrArg (Option.filter (alive now)) (find?_removals now _ args s.data hkey)
    | assign => exact .inr ⟨_, rfl, .inl (.inr (.inl ⟨hassign rfl, hmem nofun⟩))⟩
    | move src dst =>
      -- a rename overwrites its destination and removes its source
      by_cases hdst : key = dst
      · exact .inr ⟨_, rfl, .inl (.inr (.inr ⟨hmove rfl, by rw [hdst]; rfl⟩))⟩
      · obtain rfl : key = src :=
          (List.mem_pair.mp (hmem nofun)).resolve_right hdst
        refine .inr ⟨_, rfl, .inr ⟨.inr (.inr (.inl ⟨hmove rfl, rfl⟩)), ?_⟩⟩
        rw [findLive_eq] at hlive
        simp only [Event.step, hrun, findLive_eq, Store.exec, Program.move, Program.run, hlive]
        rw [FlatMap.find?_put_ne _ (Ne.symm hdst), FlatMap.find?_put_self]
        rfl
    | flush => exact .inr ⟨_, rfl, .inr ⟨.inr (.inl (hflush rfl rfl)), by
        simp only [Event.step, hrun]; rfl⟩⟩

/-- **Any event**: a sweep keeps what is live, and a command keeps the type of a live key, or
overwrites or removes it. -/
theorem Event.keepsType (event : Event) {key : Bytes} {e : Entry}
    (hlive : findLive now s.data key = some e) : KeepsType now event s key e := by
  cases event with
  | command cmd => exact command_keepsType cmd hlive
  | sweep =>
    refine .inl ⟨e, ?_, rfl⟩
    rw [← find?_live] at hlive ⊢
    exact (congrArg (FlatMap.find? · key) (live_sweepExpired now s)).trans hlive

/-! ## Runs -/

/-- The store at the end of a run. -/
def runStore : Trace → Store → Store
  | [], s => s
  | (now, event) :: rest, s => runStore rest (event.step now s).2

/-- The last clock reading of a run that starts at `t`. -/
def lastClock (t : UInt64) : Trace → UInt64
  | [] => t
  | (now, _) :: rest => lastClock now rest

/-- At some event of a run from `s` at `t`, a key that is still live with type `T`
expires, or is overwritten, or is removed. -/
def Interrupted (t : UInt64) (s : Store) (key : Bytes) (T : ValueType) (trace : Trace) :
    Prop :=
  ∃ before now event after e, trace = before ++ (now, event) :: after ∧
    findLive (lastClock t before) (runStore before s).data key = some e ∧ e.value.type = T ∧
    (findLive now (runStore before s).data key = none ∨
      ∃ cmd, event = .command cmd ∧
        (Overwrites cmd key ∨ (Removes cmd key ∧
          findLive now (event.step now (runStore before s)).2.data key = none)))

/-- A key holds one entry, at whatever time it is live. -/
theorem findLive_unique {t t' : UInt64} {data : DataMap} {key : Bytes} {e e' : Entry}
    (h : findLive t data key = some e) (h' : findLive t' data key = some e') : e = e' := by
  rw [findLive_eq] at h h'
  exact Option.some.inj
    ((Option.mem_filter_iff.mp h).1.symm.trans (Option.mem_filter_iff.mp h').1)

/-- **The type of a live key changes only through an interruption.** -/
theorem type_change_interrupted {t' : UInt64} {key : Bytes} {e' : Entry} (trace : Trace) :
    ∀ {t : UInt64} {s : Store} {e : Entry}, findLive t s.data key = some e →
      findLive t' (runStore trace s).data key = some e' → e'.value.type ≠ e.value.type →
      Interrupted t s key e.value.type trace := by
  -- the first step that does not keep the type interrupts, or the deadline passed before it
  induction trace with
  | nil =>
    intro t s e hlive hlive' hne
    rw [findLive_unique hlive hlive'] at hne
    exact absurd rfl hne
  | cons first rest ih =>
    obtain ⟨now, event⟩ := first
    intro t s e hlive hlive' hne
    cases hnow : findLive now s.data key with
    | none => exact ⟨[], now, event, rest, e, rfl, hlive, rfl, .inl hnow⟩
    | some e₁ =>
      obtain rfl : e = e₁ := findLive_unique hlive hnow
      rcases event.keepsType hnow with ⟨e₂, hafter, htype⟩ | hcause
      · obtain ⟨before, now', event', after, e₃, rfl, hlast, htype₃, hcause⟩ :=
          ih hafter hlive' (htype ▸ hne)
        exact ⟨(now, event) :: before, now', event', after, e₃, rfl, hlast,
          htype₃.trans htype, hcause⟩
      · exact ⟨[], now, event, rest, e, rfl, hlive, rfl, .inr hcause⟩

end Redix
