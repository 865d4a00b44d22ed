import Redix.Command.Laws

/-!
# What a command can do to the store

The laws of the command language, read off `dispatch`: for every command (any
name, any arguments), every clock reading and every store.

- `errors_change_nothing`: an error reply comes with unchanged live content.
- `nonWrite_changes_nothing`: a command that `is_write_command` does not list
  leaves the map exactly as it was, so that replaying the listed commands alone
  rebuilds the store.
- `disjoint_commands_commute`: commands with disjoint key footprints can be
  exchanged.
-/

namespace Redix

open Keyspace

variable {now : UInt64} {cmd : Command} {s : Store}

/-! ## Dispatch as a program -/

theorem mem_of_lookup {γ : Type*} {key : Bytes} {value : γ} {rows : List (Bytes × γ)}
    (h : rows.lookup key = some value) : (key, value) ∈ rows := by
  obtain ⟨before, after, rfl, -⟩ := List.lookup_eq_some_iff.mp h
  exact List.mem_append_right before List.mem_cons_self

/-- Every command is either unknown, or runs a program that its row asks for. -/
theorem dispatch_cases (now : UInt64) (cmd : Command) :
    (specTable.lookup cmd.name = none ∧
      ∀ s, dispatch now cmd s = (unknownCommand cmd.name, s)) ∨
    ∃ spec p, (cmd.name, spec) ∈ specTable ∧ spec.Asks now cmd.args p ∧
      ∀ s, dispatch now cmd s = ((s.exec now p).1.bytes, (s.exec now p).2) := by
  cases hlookup : specTable.lookup cmd.name with
  | none => exact .inl ⟨rfl, fun s => dispatch_unknown hlookup⟩
  | some spec =>
    exact .inr ⟨spec, spec.program now cmd.args, mem_of_lookup hlookup,
      spec.asks now cmd.args, fun s => dispatch_eq hlookup⟩

/-! ## Errors -/

theorem Reply.isError_of_bytes {r : Reply} (h : r.bytes.head? = some 45) :
    r.isError = true := by
  cases r with
  | error => rfl
  | simple text hline => cases h
  | integer n => cases h
  | bulk t => cases h
  | null => cases h
  | array elems => cases h

/-- **Failed commands change nothing.** If the reply is an error, the live
content is what it was. -/
theorem errors_change_nothing (now : UInt64) (cmd : Command) (s : Store)
    (h : (dispatch now cmd s).1.head? = some 45) :
    (dispatch now cmd s).2.live now = s.live now := by
  rcases dispatch_cases now cmd with ⟨-, hrun⟩ | ⟨spec, p, -, hasks, hrun⟩
  · rw [hrun]
  · rw [hrun] at h ⊢
    exact hasks.clean s.data (Reply.isError_of_bytes h)

/-- `INCR` of a string that is no number fails; an expired entry is around. -/
theorem errors_change_nothing_incr :
    let s : Store := (Store.empty.set (ascii "k") (ascii "x") 0).set (ascii "old") [] 5
    (dispatch 9 ⟨ascii "INCR", [ascii "k"]⟩ s).2.live 9 = s.live 9 :=
  errors_change_nothing 9 _ _ (by decide)

/-! ## The list of write commands -/

/-- The form of each row agrees with the list of write commands. -/
theorem specTable_writes :
    ∀ row ∈ specTable, row.2.writes = writeCommands.contains row.1 := by
  decide

theorem dispatch_readOnly (h : isWriteCommand cmd = false) (s : Store) :
    (dispatch now cmd s).2 = s := by
  rcases dispatch_cases now cmd with ⟨-, hrun⟩ | ⟨spec, p, hrow, hasks, hrun⟩
  · rw [hrun]
  · have hwrites : spec.writes = false := (specTable_writes _ hrow).trans h
    rw [hrun]
    exact congrArg Store.mk (Program.run_readOnly p (hasks.readOnly hwrites))

/-- The store after commands at given clock readings. -/
def execAll : List (UInt64 × Command) → Store → Store
  | [], s => s
  | (now, cmd) :: rest, s => execAll rest (dispatch now cmd s).2

/-- **The list of write commands is complete.** A command that is not listed
leaves the map as it was, entry for entry; so a sequence of commands does to the
store what its listed commands do alone. -/
theorem nonWrite_changes_nothing :
    (∀ (now : UInt64) (cmd : Command) (s : Store), isWriteCommand cmd = false →
      (dispatch now cmd s).2.data = s.data) ∧
    ∀ (log : List (UInt64 × Command)) (s : Store),
      execAll log s = execAll (log.filter fun e => isWriteCommand e.2) s := by
  refine ⟨fun now cmd s h => by rw [dispatch_readOnly h], fun log => ?_⟩
  induction log with
  | nil => exact fun _ => rfl
  | cons e rest ih =>
    intro s
    rw [List.filter_cons]
    cases hwrite : isWriteCommand e.2 with
    | true => exact ih _
    | false =>
      rw [execAll, dispatch_readOnly hwrite]
      exact ih s

/-- `GET` of an expired key leaves the expired entry where it is. -/
theorem nonWrite_changes_nothing_get :
    let s : Store := Store.empty.set (ascii "old") [] 5
    (dispatch 9 ⟨ascii "GET", [ascii "old"]⟩ s).2.data = s.data :=
  nonWrite_changes_nothing.1 9 _ _ (by decide)

/-! ## Footprints -/

/-- Where the keys of a command stand, by its name. -/
def keyArgs (name : Bytes) : KeyArgs :=
  if name ∈ ["DEL", "EXISTS", "MGET", "SUNION", "SINTER"].map ascii then .all
  else if name = ascii "MSET" then .everyOther
  else if name = ascii "RENAME" then .firstTwo
  else if name ∈ ["FLUSHDB", "KEYS", "DBSIZE"].map ascii then .whole
  else if name ∈ ["PING", "ECHO"].map ascii then .none
  else if (dispatchTable.lookup name).isNone then .none
  else .first

/-- The keys a command names. -/
def footprint (cmd : Command) : List Bytes := (keyArgs cmd.name).of cmd.args

/-- The form of each row agrees with its key positions. -/
theorem specTable_keyArgs : ∀ row ∈ specTable, row.2.keyArgs = keyArgs row.1 := by
  decide

/-- A command that is not about the whole keyspace runs within its footprint. -/
theorem dispatch_within (now : UInt64) (hcmd : keyArgs cmd.name ≠ .whole) :
    (∀ s, (dispatch now cmd s).2 = s ∧ ∀ s', (dispatch now cmd s).1 = (dispatch now cmd s').1) ∨
    ∃ p : Program Bytes Entry Reply, p.Within (· ∈ footprint cmd) ∧
      ∀ s, dispatch now cmd s = ((s.exec now p).1.bytes, (s.exec now p).2) := by
  rcases dispatch_cases now cmd with ⟨-, hrun⟩ | ⟨spec, p, hrow, hasks, hrun⟩
  · exact .inl fun s => ⟨by rw [hrun], fun s' => by rw [hrun, hrun]⟩
  · have hkeys : spec.keyArgs = keyArgs cmd.name := specTable_keyArgs _ hrow
    have hwithin := hasks.within (by rwa [hkeys])
    rw [hkeys] at hwithin
    exact .inr ⟨p, hwithin, hrun⟩

/-- A command leaves the entry of a key where it is, unless it is a write that either
has the key in its footprint or is about the whole keyspace. -/
theorem dispatch_touches (now : UInt64) (cmd : Command) (s : Store) (key : Bytes) :
    (dispatch now cmd s).2.data.find? key = s.data.find? key ∨
    ∃ spec p, (cmd.name, spec) ∈ specTable ∧ spec.Asks now cmd.args p ∧ spec.writes = true ∧
      (spec.keyArgs ≠ .whole → key ∈ spec.keyArgs.of cmd.args) ∧
      dispatch now cmd s = ((s.exec now p).1.bytes, (s.exec now p).2) := by
  rcases dispatch_cases now cmd with ⟨-, hrun⟩ | ⟨spec, p, hrow, hasks, hrun⟩
  · exact .inl (by rw [hrun])
  -- outside the footprint nothing happens
  by_cases hframe : spec.keyArgs ≠ .whole ∧ key ∉ spec.keyArgs.of cmd.args
  · refine .inl ?_
    rw [hrun]
    exact Program.run_frame hframe.2 p (hasks.within hframe.1)
  -- nor does anything happen in a read
  cases hwrites : spec.writes with
  | false =>
    refine .inl ?_
    rw [hrun]
    exact congrArg (FlatMap.find? · key) (Program.run_readOnly p (hasks.readOnly hwrites))
  | true =>
    refine .inr ⟨spec, p, hrow, hasks, hwrites, fun hkeys => ?_, hrun s⟩
    by_contra hnot
    exact hframe ⟨hkeys, hnot⟩

/-- The writes that are about the whole keyspace. -/
theorem specTable_flush : ∀ row ∈ specTable, row.2.writes = true → row.2.keyArgs = .whole →
    row.1 = ascii "FLUSHDB" := by
  decide

/-- Frame: but for `FLUSHDB`, a command leaves the entries of keys it does not name. -/
theorem dispatch_frame (now : UInt64) {cmd : Command} {key : Bytes}
    (hkey : key ∉ footprint cmd) (hflush : cmd.name ≠ ascii "FLUSHDB") (s : Store) :
    (dispatch now cmd s).2.data.find? key = s.data.find? key := by
  refine (dispatch_touches now cmd s key).resolve_right ?_
  rintro ⟨spec, p, hrow, -, hwrites, hmem, -⟩
  by_cases hkeys : spec.keyArgs = .whole
  · exact hflush (specTable_flush _ hrow hwrites hkeys)
  · refine hkey ?_
    rw [footprint, ← specTable_keyArgs _ hrow]
    exact hmem hkeys

/-- **Independent commands commute.** With disjoint footprints, each command gets
the same reply in either order, and the final store is the same. -/
theorem disjoint_commands_commute (now : UInt64) (cmd cmd' : Command) (s : Store)
    (hcmd : keyArgs cmd.name ≠ .whole) (hcmd' : keyArgs cmd'.name ≠ .whole)
    (hdisj : ∀ key ∈ footprint cmd, key ∉ footprint cmd') :
    (dispatch now cmd (dispatch now cmd' s).2).1 = (dispatch now cmd s).1 ∧
    (dispatch now cmd' (dispatch now cmd s).2).1 = (dispatch now cmd' s).1 ∧
    (dispatch now cmd' (dispatch now cmd s).2).2 =
      (dispatch now cmd (dispatch now cmd' s).2).2 := by
  -- an unknown command does nothing and answers the same everywhere
  rcases dispatch_within now hcmd with hidle | ⟨p, hp, hrun⟩
  · exact ⟨(hidle _).2 s, by rw [(hidle s).1], by rw [(hidle s).1, (hidle _).1]⟩
  rcases dispatch_within now hcmd' with hidle | ⟨q, hq, hrun'⟩
  · exact ⟨by rw [(hidle s).1], (hidle _).2 s, by rw [(hidle s).1, (hidle _).1]⟩
  obtain ⟨hreply, hreply', hdata⟩ := Program.run_comm (alive now) hp hq hdisj s.data
  simp only [hrun, hrun']
  exact ⟨congrArg Reply.bytes hreply, congrArg Reply.bytes hreply', congrArg Store.mk hdata⟩

/-- `RENAME a b` and `INCR c`. -/
theorem disjoint_commands_commute_rename :
    let s : Store := Store.empty.set (ascii "a") (ascii "1") 0
    let rename : Command := ⟨ascii "RENAME", [ascii "a", ascii "b"]⟩
    let incr : Command := ⟨ascii "INCR", [ascii "c"]⟩
    (dispatch 9 incr (dispatch 9 rename s).2).2 = (dispatch 9 rename (dispatch 9 incr s).2).2 :=
  (disjoint_commands_commute 9 _ _ _ (by decide) (by decide) (by decide)).2.2

end Redix
