import Redix.Command.Types

/-!
# Deadlines

An entry carries its deadline beside its value, and most writes replace the value
alone. What becomes of the deadline of a key:

- `Update.run_deadline`: the deadline that a write to one key leaves there, as a
  function of the one before;
- `dispatch_deadline`: a step keeps the deadline of a key, or its command is one
  of those that set deadlines (`Redated`);
- `deadlines_change_where_they_should`: what this means for the commands.
-/

namespace Redix

open Keyspace

variable {α : Type} {now : UInt64} {s : Store} {o : Option Entry}

/-! ## Operations on one key -/

/-- The deadline of an entry that may be missing; `0` for none. -/
def deadlineOf : Option Entry → UInt64
  | none => 0
  | some e => e.expiresAtMs

/-- The deadline a write leaves, given the one before. -/
def Update.deadline : Update → UInt64 → UInt64
  | set _ opts, _ => opts.expiresAt
  | getset _, _ => 0
  | expire deadline, _ => deadline
  | persist, _ => 0
  | count _ _, old => old
  | append _, old => old
  | add _ _ _ _, old => old
  | remove _ _ _, old => old
  | pop _, old => old

/-- An effect without an error writes only entries whose deadline is the given
function of the one before. -/
def DatedOn (d : UInt64 → UInt64) (o : Option Entry) (effect : Effect) : Prop :=
  effect.1.isError = false → ∀ o' ∈ effect.2, ∀ e ∈ o', e.expiresAtMs = d (deadlineOf o)

section dated

variable {d : UInt64 → UInt64} {reply : Reply}

/-- An entry with the deadline that is asked for. -/
theorem datedOn_some {e : Entry} (h : e.expiresAtMs = d (deadlineOf o)) :
    DatedOn d o (reply, some (some e)) := by
  rintro - o' ⟨⟩ e' ⟨⟩
  exact h

/-- No entry has no deadline to be asked for. -/
theorem datedOn_none : DatedOn d o (reply, some none) := by
  rintro - o' ⟨⟩ e' ⟨⟩

/-- Of errors nothing is asked. -/
theorem datedOn_error {written : Option (Option Entry)} (h : reply.isError = true) :
    DatedOn d o (reply, written) := by
  intro hok
  have hok : reply.isError = false := hok
  rw [h] at hok
  cases hok

end dated

/-- **Deadlines of one key**: a write leaves the deadline that its form says. -/
theorem Update.run_deadline (u : Update) : DatedOn u.deadline o (u.run o) := by
  cases u with
  | set value opts =>
    simp only [run]
    split_ifs
    · rintro - o' ⟨⟩
    · exact datedOn_some rfl
  | count initial next =>
    refine onType_cases ?_ (fun _ _ => datedOn_error rfl) fun e text _ => ?_
    · cases initial with
      | none => exact datedOn_none
      | some n => exact datedOn_some rfl
    · cases (parseI64 text).bind next with
      | none => exact datedOn_error rfl
      | some n => exact datedOn_some rfl
  | append suffix =>
    exact onType_cases (datedOn_some rfl) (fun _ _ => datedOn_error rfl)
      fun _ _ _ => datedOn_some rfl
  | getset value =>
    exact onType_cases (datedOn_some rfl) (fun _ _ => datedOn_error rfl)
      fun _ _ _ => datedOn_some rfl
  | expire deadline =>
    cases o with
    | none => exact datedOn_none
    | some e => exact datedOn_some rfl
  | persist =>
    cases o with
    | none => exact datedOn_none
    | some e => exact datedOn_some rfl
  | add T fresh grow hgrow =>
    exact onType_cases (datedOn_some rfl) (fun _ _ => datedOn_error rfl)
      fun _ _ _ => datedOn_some rfl
  | remove T elems hT =>
    refine onType_cases datedOn_none (fun _ _ => datedOn_error rfl) fun e d _ => ?_
    -- what is left keeps its deadline, if anything is left
    cases hempty : (FlatMap.eraseAll elems d).2.isEmpty with
    | true =>
      simp only [hempty]
      exact datedOn_none
    | false =>
      simp only [hempty]
      exact datedOn_some rfl
  | pop take =>
    refine onType_cases datedOn_none (fun _ _ => datedOn_error rfl) fun e list _ => ?_
    cases take list with
    | none => exact datedOn_none
    | some taken =>
      cases hempty : taken.2.isEmpty with
      | true =>
        simp only [hempty]
        exact datedOn_none
      | false =>
        simp only [hempty]
        exact datedOn_some rfl

/-- The entry after a write: it has the deadline that the write's form says, or it
is the one from before. -/
theorem Update.deadline_after (u : Update) {e' : Entry}
    (h : ((u.run o).2.getD o) = some e') :
    e'.expiresAtMs = u.deadline (deadlineOf o) ∨ o = some e' := by
  cases hwrite : (u.run o).2 with
  | none =>
    rw [hwrite] at h
    exact .inr h
  | some o' =>
    rw [hwrite] at h
    have he' : o' = some e' := h
    cases herror : (u.run o).1.isError with
    | true =>
      -- an error leaves the entry as it was
      have hclean : (u.run o).2 = some o := u.run_clean herror
      rw [hwrite] at hclean
      cases hclean
      exact .inr he'
    | false => exact .inl (u.run_deadline herror o' hwrite e' he')

/-! ## The options of `SET` -/

/-- Whether an argument of `SET` is the name of a deadline option. -/
def isDeadlineOption (arg : Bytes) : Prop :=
  uppercase arg = ascii "EX" ∨ uppercase arg = ascii "PX"

/-- `SET` with `EX` or `PX`. -/
def SetsDeadline (cmd : Command) : Prop :=
  cmd.name = ascii "SET" ∧ ∃ arg ∈ cmd.args.drop 2, isDeadlineOption arg

/-- Without `EX` and `PX` the option loop leaves the deadline as it was. -/
theorem setOptions_expiresAt {args : List Bytes} {opts opts' : SetOptions}
    (hargs : ∀ arg ∈ args, ¬ isDeadlineOption arg)
    (h : setOptions now args opts = .ok opts') : opts'.expiresAt = opts.expiresAt := by
  induction args generalizing opts with
  | nil =>
    cases h
    rfl
  | cons arg rest ih =>
    have hrest : ∀ arg ∈ rest, ¬ isDeadlineOption arg := fun arg harg =>
      hargs arg (List.mem_cons_of_mem _ harg)
    have harg : ¬ (uppercase arg = ascii "EX" ∨ uppercase arg = ascii "PX") :=
      hargs arg List.mem_cons_self
    unfold setOptions at h
    simp only [if_neg harg] at h
    -- NX and XX leave the deadline alone
    split_ifs at h
    · have hkept := ih hrest h
      exact hkept
    · have hkept := ih hrest h
      exact hkept

/-! ## Steps -/

/-- `SET` leaves the store as it is, or stores the string with the deadline that its
options say. -/
theorem dispatch_set {cmd : Command} (hname : cmd.name = ascii "SET") :
    ((dispatch now cmd s).2 = s ∧ (dispatch now cmd s).1 ≠ respOk) ∨
    ∃ key value options opts, cmd.args = key :: value :: options ∧
      setOptions now options {} = .ok opts ∧
      (dispatch now cmd s).2.data = s.data.put key (some ⟨.string value, opts.expiresAt⟩) := by
  have hrow : specTable.lookup cmd.name = some .set := hname ▸ rfl
  have harity : wrongArity ≠ respOk := by decide
  have hnull : respNullBulk ≠ respOk := by decide
  obtain ⟨name, args⟩ := cmd
  obtain rfl : name = ascii "SET" := hname
  -- too few arguments, bad options, NX or XX not met, and otherwise the value is stored
  match args with
  | [] =>
    rw [dispatch_eq hrow]
    exact .inl ⟨rfl, harity⟩
  | [_] =>
    rw [dispatch_eq hrow]
    exact .inl ⟨rfl, harity⟩
  | key :: value :: options =>
    cases hopts : setOptions now options {} with
    | error error =>
      have herror : error.reply ≠ respOk := by cases error <;> decide
      rw [dispatch_setOptions_error hopts]
      exact .inl ⟨rfl, herror⟩
    | ok opts =>
      rw [dispatch_setOptions hopts, served, Update.run]
      split_ifs
      · exact .inl ⟨rfl, hnull⟩
      · exact .inr ⟨key, value, options, opts, rfl, hopts, rfl⟩

/-- The commands that write entries without a deadline; `SET` does so without options
only. -/
def clearing : List Bytes := ["SET", "GETSET", "MSET", "PERSIST"].map ascii

/-- How a step can change the deadline of a key to that of the entry it leaves. -/
inductive Redated (now : UInt64) (s : Store) (cmd : Command) (key : Bytes) (e' : Entry) :
    Prop
  /-- The command leaves no deadline. -/
  | cleared (hname : cmd.name ∈ clearing) (hnone : e'.expiresAtMs = 0)
  /-- `SET` with `EX` or `PX`. -/
  | set (h : SetsDeadline cmd)
  /-- `EXPIRE` and `PEXPIRE` of a live key. -/
  | expire (hname : cmd.name ∈ ["EXPIRE", "PEXPIRE"].map ascii)
      (hlive : (findLive now s.data key).isSome)
  /-- `RENAME` brings its source's deadline along. -/
  | rename (hname : cmd.name = ascii "RENAME")

/-- What a step leaves of a deadline: the entry has the one from before, or the
command set it. -/
def DatedAfter (now : UInt64) (s : Store) (cmd : Command) (key : Bytes) : Prop :=
  ∀ e', findLive now (dispatch now cmd s).2.data key = some e' →
    e'.expiresAtMs = deadlineOf (findLive now s.data key) ∨ Redated now s cmd key e'

/-- A key whose live entry stays keeps its deadline. -/
theorem datedAfter_of_findLive {cmd : Command} {key : Bytes}
    (h : findLive now (dispatch now cmd s).2.data key = findLive now s.data key) :
    DatedAfter now s cmd key := by
  intro e' he'
  rw [h] at he'
  rw [he']
  exact .inl rfl

/-- A key that is not touched keeps its deadline. -/
theorem datedAfter_of_find? {cmd : Command} {key : Bytes}
    (h : (dispatch now cmd s).2.data.find? key = s.data.find? key) :
    DatedAfter now s cmd key := by
  refine datedAfter_of_findLive ?_
  rw [findLive_eq, findLive_eq]
  exact congrArg (Option.filter (alive now)) h

/-- `SET`. -/
theorem set_datedAfter {cmd : Command} (hname : cmd.name = ascii "SET") (key : Bytes) :
    DatedAfter now s cmd key := by
  rcases dispatch_set hname with ⟨hstore, -⟩ | ⟨k, value, options, opts, hargs, hopts, hdata⟩
  · exact datedAfter_of_find? (by rw [hstore])
  by_cases hk : k = key
  · subst hk
    intro e' he'
    rw [hdata, findLive_eq, FlatMap.find?_put_self] at he'
    obtain rfl := Option.some.inj (Option.mem_filter_iff.mp he').1
    -- without EX or PX the value is stored without a deadline
    by_cases hoption : ∃ arg ∈ options, isDeadlineOption arg
    · exact .inr (.set ⟨hname, by rwa [hargs]⟩)
    · have hnone : opts.expiresAt = 0 :=
        setOptions_expiresAt (fun arg harg h => hoption ⟨arg, harg, h⟩) hopts
      exact .inr (.cleared (by rw [hname]; decide) hnone)
  · exact datedAfter_of_find? (by rw [hdata, FlatMap.find?_put_ne _ hk])

/-- What `MSET` writes has no deadline. -/
theorem find?_assign (now : UInt64) {key : Bytes} (args : List Bytes) (data : DataMap)
    (h : key ∈ (pairs args).map Prod.fst) :
    ∃ e, ((Program.cells ((pairs args).map fun pair =>
        (pair.1, fun _ => (0, some ⟨.string pair.2, 0⟩))) fun _ => Reply.ok).run
          (alive now) data).2.find? key = some e ∧ e.expiresAtMs = 0 := by
  refine Program.find?_cells (Q := fun o => ∃ e, o = some e ∧ Entry.expiresAtMs e = 0)
    (alive now) (fun u hu _ o => ?_) _ data (.inl ?_)
  · obtain ⟨pair, -, rfl⟩ := List.mem_map.mp hu
    exact ⟨_, rfl, rfl⟩
  · rw [List.map_map]
    exact h

/-- A write to one key, other than `SET`. -/
theorem update_datedAfter {name key : Bytes} {rest : List Bytes} {u : Update}
    (hserves : u.Serves name) (hset : name ≠ ascii "SET")
    (hdata : (dispatch now ⟨name, key :: rest⟩ s).2 = (s.exec now (.step key u.run)).2) :
    DatedAfter now s ⟨name, key :: rest⟩ key := by
  intro e' he'
  rw [hdata, findLive_exec_step] at he'
  have hwritten := (Option.mem_filter_iff.mp he').1
  rcases u.deadline_after hwritten with hdate | hkept
  · cases u with
    | set value opts => exact absurd (List.mem_singleton.mp hserves) hset
    | getset value =>
      have hname : ascii "GETSET" ∈ clearing := by decide
      obtain rfl := List.mem_singleton.mp hserves
      exact .inr (.cleared hname hdate)
    | persist =>
      have hname : ascii "PERSIST" ∈ clearing := by decide
      obtain rfl := List.mem_singleton.mp hserves
      exact .inr (.cleared hname hdate)
    | expire deadline =>
      refine .inr (.expire hserves ?_)
      -- a key that is not live is left without an entry
      cases hlive : findLive now s.data key with
      | none =>
        rw [hlive] at hwritten
        cases hwritten
      | some e => rfl
    | count | append | add | remove | pop => exact .inl hdate
  · rw [hkept]
    exact .inl rfl

/-- **One step**: a command keeps the deadline of a key, or is one that sets
deadlines. -/
theorem dispatch_deadline (cmd : Command) (key : Bytes) : DatedAfter now s cmd key := by
  by_cases hset : cmd.name = ascii "SET"
  · exact set_datedAfter hset key
  rcases dispatch_touches now cmd s key with
    hsame | ⟨spec, p, hrow, hasks, hwrites, hmem, hrun⟩
  · exact datedAfter_of_find? hsame
  · obtain ⟨hassign, hmove, -, -⟩ := specTable_forms _ hrow
    have hserves := specTable_serves _ hrow
    obtain ⟨name, args⟩ := cmd
    -- by the form of the command: what it does to the entry under this key
    cases hasks with
    | reply => exact datedAfter_of_find? (by rw [hrun]; rfl)
    | look h => cases hwrites
    | gather => cases hwrites
    | survey => cases hwrites
    | @update parse k rest u h =>
      obtain rfl : key = k := List.mem_singleton.mp (hmem nofun)
      exact update_datedAfter (hserves now rest u h) hset (by rw [hrun])
    | delete =>
      intro e' he'
      rw [hrun, findLive_eq] at he'
      have hnone := find?_removals now (fun n => .count n) args s.data (hmem nofun)
      have hsome := (Option.mem_filter_iff.mp he').1
      exact absurd (hnone.symm.trans hsome) nofun
    | assign =>
      have hname : ascii "MSET" ∈ clearing := by decide
      obtain rfl : name = ascii "MSET" := hassign rfl
      by_cases hk : key ∈ (pairs args).map Prod.fst
      · intro e' he'
        rw [hrun, findLive_eq] at he'
        obtain ⟨e, hfind, hnone⟩ := find?_assign now args s.data hk
        obtain rfl := Option.some.inj (hfind.symm.trans (Option.mem_filter_iff.mp he').1)
        exact .inr (.cleared hname hnone)
      · refine datedAfter_of_find? ?_
        rw [hrun]
        refine Program.run_frame (F := (· ∈ (pairs args).map Prod.fst)) hk _ ?_
        refine Program.within_cells (fun u hu => ?_) _
        obtain ⟨pair, hpair, rfl⟩ := List.mem_map.mp hu
        exact List.mem_map_of_mem hpair
    | move src dst => exact fun e' _ => .inr (.rename (hmove rfl))
    | flush =>
      intro e' he'
      rw [hrun] at he'
      cases he'

/-! ## Commands that set deadlines -/

/-- The reply is not an error. -/
def Accepted (now : UInt64) (cmd : Command) (s : Store) : Prop :=
  (dispatch now cmd s).1.head? ≠ some 45

/-- The live key has no deadline after the command. -/
def LeftWithout (now : UInt64) (cmd : Command) (s : Store) (key : Bytes) : Prop :=
  ∃ e', findLive now (dispatch now cmd s).2.data key = some e' ∧ e'.expiresAtMs = 0

/-- An error starts with its sign. -/
theorem Reply.head?_of_isError {r : Reply} (h : r.isError = true) :
    r.bytes.head? = some 45 := by
  cases r with
  | error => rfl
  | simple | integer | bulk | null | array => cases h

/-- An accepted command that writes its first argument. -/
theorem exists_update_of_accepted {name : Bytes} {args : List Bytes}
    {parse : UInt64 → List Bytes → Except Reply Update}
    (hrow : specTable.lookup name = some (.update parse)) (hok : Accepted now ⟨name, args⟩ s)
    (herror : ∀ {rest reply}, parse now rest = .error reply → reply.isError = true) :
    ∃ key rest u, args = key :: rest ∧ parse now rest = .ok u ∧
      dispatch now ⟨name, args⟩ s = served now s key u.run ∧
      (u.run (findLive now s.data key)).1.isError = false := by
  cases args with
  | nil =>
    refine absurd ?_ hok
    rw [dispatch_eq hrow]
    rfl
  | cons key rest =>
    cases hparse : parse now rest with
    | error reply =>
      refine absurd ?_ hok
      rw [dispatch_eq hrow, serve_update, hparse]
      exact Reply.head?_of_isError (herror hparse)
    | ok u =>
      refine ⟨key, rest, u, rfl, hparse, dispatch_update hrow hparse, ?_⟩
      -- an update that is refused replies with an error, which `hok` excludes
      by_contra hreply
      refine hok ?_
      rw [dispatch_update hrow hparse]
      exact Reply.head?_of_isError (Bool.eq_true_of_not_eq_false hreply)

/-- An entry without a deadline is live. -/
theorem findLive_of_noDeadline {data : DataMap} {key : Bytes} {e : Entry}
    (h : data.find? key = some e) (hnone : e.expiresAtMs = 0) :
    findLive now data key = some e := by
  rw [findLive_eq, h]
  simp [Option.filter, alive, Entry.isExpired, hnone]

/-- `SET` without `EX` and `PX` leaves a key without a deadline. -/
theorem set_leavesWithout {cmd : Command} {key : Bytes} (hname : cmd.name = ascii "SET")
    (hoption : ¬ SetsDeadline cmd) (hok : (dispatch now cmd s).1 = respOk)
    (hkey : key ∈ footprint cmd) : LeftWithout now cmd s key := by
  rcases dispatch_set hname with ⟨-, hnot⟩ | ⟨k, value, options, opts, hargs, hopts, hdata⟩
  · exact absurd hok hnot
  have hnone : opts.expiresAt = 0 := by
    refine setOptions_expiresAt (fun arg harg h => hoption ⟨hname, arg, ?_, h⟩) hopts
    rw [hargs]
    exact harg
  have hfoot : footprint cmd = [k] := by
    rw [footprint, hname, hargs]
    rfl
  rw [hfoot, List.mem_singleton] at hkey
  subst hkey
  refine ⟨⟨.string value, 0⟩, findLive_of_noDeadline ?_ rfl, rfl⟩
  rw [hdata, hnone, FlatMap.find?_put_self]

/-- `GETSET` writes unless it fails. -/
theorem getset_written {value : Bytes} (hok : ((Update.getset value).run o).1.isError = false) :
    ((Update.getset value).run o).2 = some (some ⟨.string value, 0⟩) := by
  revert hok
  exact onType_cases (P := fun _ effect => effect.1.isError = false →
    effect.2 = some (some ⟨.string value, 0⟩)) (fun _ => rfl)
    (fun _ _ hok => by cases hok) fun _ _ _ _ => rfl

/-- `GETSET` leaves a key without a deadline. -/
theorem getset_leavesWithout {cmd : Command} {key : Bytes} (hname : cmd.name = ascii "GETSET")
    (hok : Accepted now cmd s) (hkey : key ∈ footprint cmd) : LeftWithout now cmd s key := by
  have hrow : specTable.lookup (ascii "GETSET") = some .getset := rfl
  obtain ⟨name, args⟩ := cmd
  obtain rfl : name = ascii "GETSET" := hname
  obtain ⟨k, rest, u, rfl, hparse, hserved, hreply⟩ :=
    exists_update_of_accepted hrow hok fun {rest _} herror => by
      match rest with
      | [] | _ :: _ :: _ =>
        cases herror
        rfl
      | [value] => cases herror
  match rest with
  | [] => cases hparse
  | _ :: _ :: _ => cases hparse
  | [value] =>
    obtain rfl : key = k := List.mem_singleton.mp hkey
    cases hparse
    refine ⟨⟨.string value, 0⟩, findLive_of_noDeadline ?_ rfl, rfl⟩
    rw [hserved, served, getset_written hreply]
    exact FlatMap.find?_put_self _ _ _

/-- The keys of pairs are their first elements. -/
theorem everyOther_eq (args : List Bytes) (heven : args.length % 2 = 0) :
    everyOther args = (pairs args).map Prod.fst := by
  fun_induction everyOther args with
  | case1 => rfl
  | case2 arg => cases heven
  | case3 arg second rest ih =>
    have hrest : rest.length % 2 = 0 := by
      simp only [List.length_cons] at heven
      omega
    rw [pairs, List.map_cons, ih hrest]

/-- `MSET` leaves its keys without deadlines. -/
theorem mset_leavesWithout {cmd : Command} {key : Bytes} (hname : cmd.name = ascii "MSET")
    (hok : Accepted now cmd s) (hkey : key ∈ footprint cmd) : LeftWithout now cmd s key := by
  have hrow : specTable.lookup cmd.name = some .mset := hname ▸ rfl
  obtain ⟨name, args⟩ := cmd
  obtain rfl : name = ascii "MSET" := hname
  rw [Accepted, dispatch_eq hrow] at hok
  by_cases hargs : args.length < 2 ∨ args.length % 2 ≠ 0
  · -- the arity is wrong
    refine absurd ?_ hok
    simp only [Spec.serve, Spec.mset, Spec.program, if_pos hargs]
    rfl
  · have heven : args.length % 2 = 0 := by omega
    have hmem : key ∈ (pairs args).map Prod.fst := by
      rw [← everyOther_eq args heven]
      exact hkey
    obtain ⟨e, hfind, hnone⟩ := find?_assign now args s.data hmem
    refine ⟨e, findLive_of_noDeadline ?_ hnone, hnone⟩
    rw [dispatch_eq hrow]
    simp only [Spec.serve, Spec.mset, Spec.program, if_neg hargs]
    exact hfind

/-- `RENAME` moves the live entry of its source. -/
theorem rename_moves {cmd : Command} (hname : cmd.name = ascii "RENAME")
    (hok : Accepted now cmd s) : ∃ src dst e, cmd.args = [src, dst] ∧
      findLive now s.data src = some e ∧
      findLive now (dispatch now cmd s).2.data dst = some e := by
  have hrow : specTable.lookup cmd.name = some .rename := hname ▸ rfl
  obtain ⟨name, args⟩ := cmd
  rw [Accepted, dispatch_eq hrow] at hok
  match args with
  | [] => exact absurd rfl hok
  | [_] => exact absurd rfl hok
  | _ :: _ :: _ :: _ => exact absurd rfl hok
  | [src, dst] =>
    simp only [Spec.serve, Spec.rename, Spec.program, Store.exec, Program.move, Program.run]
      at hok
    cases hlive : findLive now s.data src with
    | none =>
      rw [findLive_eq] at hlive
      rw [hlive] at hok
      exact absurd rfl hok
    | some e =>
      refine ⟨src, dst, e, rfl, hlive, ?_⟩
      have halive := alive_of_findLive hlive
      rw [findLive_eq] at hlive
      rw [dispatch_eq hrow, findLive_eq]
      simp only [Spec.serve, Spec.rename, Spec.program, Store.exec, Program.move, Program.run,
        hlive, FlatMap.find?_put_self]
      simp [Option.filter, halive]

/-- **Deadlines change only where they should.** For every store, clock reading and
command:
a key that is live before and after a command other than the seven that set
deadlines keeps its deadline; `SET` without `EX` and `PX`, `GETSET` and `MSET` leave
what they write without one; `RENAME` gives its destination the entry of its source,
deadline included; and a key that was not live has no deadline afterwards, unless by
`SET` with `EX` or `PX` or by `RENAME`. -/
theorem deadlines_change_where_they_should (now : UInt64) (cmd : Command) (s : Store) :
    (cmd.name ∉ ["SET", "GETSET", "MSET", "EXPIRE", "PEXPIRE", "PERSIST", "RENAME"].map ascii →
      ∀ key e e', findLive now s.data key = some e →
        findLive now (dispatch now cmd s).2.data key = some e' →
        e'.expiresAtMs = e.expiresAtMs) ∧
    ((cmd.name ∈ ["GETSET", "MSET"].map ascii ∧ Accepted now cmd s) ∨
        (cmd.name = ascii "SET" ∧ ¬ SetsDeadline cmd ∧ (dispatch now cmd s).1 = respOk) →
      ∀ key ∈ footprint cmd, ∃ e',
        findLive now (dispatch now cmd s).2.data key = some e' ∧ e'.expiresAtMs = 0) ∧
    (cmd.name = ascii "RENAME" → Accepted now cmd s →
      ∃ src dst e e', cmd.args = [src, dst] ∧ findLive now s.data src = some e ∧
        findLive now (dispatch now cmd s).2.data dst = some e' ∧
        e'.expiresAtMs = e.expiresAtMs) ∧
    (¬ SetsDeadline cmd → cmd.name ≠ ascii "RENAME" →
      ∀ key e', findLive now s.data key = none →
        findLive now (dispatch now cmd s).2.data key = some e' → e'.expiresAtMs = 0) := by
  refine ⟨fun hname key e e' hbefore hafter => ?_, fun hwrite key hkey => ?_,
    fun hname hok => ?_, fun hset hrename key e' hbefore hafter => ?_⟩
  · rcases dispatch_deadline cmd key e' hafter with hkept | hredated
    · rw [hkept, hbefore]
      rfl
    · refine absurd ?_ hname
      -- the commands that redate a key are among those named
      have hsub (names : List String) (hsub : names ⊆ ["SET", "GETSET", "MSET", "EXPIRE",
          "PEXPIRE", "PERSIST", "RENAME"]) (h : cmd.name ∈ names.map ascii) :
          cmd.name ∈ ["SET", "GETSET", "MSET", "EXPIRE", "PEXPIRE", "PERSIST",
            "RENAME"].map ascii := List.map_subset ascii hsub h
      cases hredated with
      | cleared h => exact hsub _ (by decide) h
      | set h => exact hsub ["SET"] (by decide) (List.mem_singleton.mpr h.1)
      | expire h => exact hsub _ (by decide) h
      | rename h => exact hsub ["RENAME"] (by decide) (List.mem_singleton.mpr h)
  · rcases hwrite with ⟨hname, hok⟩ | ⟨hname, hoption, hok⟩
    · rcases List.mem_pair.mp hname with hname | hname
      · exact getset_leavesWithout hname hok hkey
      · exact mset_leavesWithout hname hok hkey
    · exact set_leavesWithout hname hoption hok hkey
  · obtain ⟨src, dst, e, hargs, hbefore, hafter⟩ := rename_moves hname hok
    exact ⟨src, dst, e, e, hargs, hbefore, hafter, rfl⟩
  · rcases dispatch_deadline cmd key e' hafter with hkept | hredated
    · rw [hkept, hbefore]
      rfl
    · cases hredated with
      | cleared _ hnone => exact hnone
      | set h => exact absurd h hset
      | expire _ hlive =>
        rw [hbefore] at hlive
        cases hlive
      | rename h => exact absurd h hrename

/-- A key with a deadline, and one whose deadline has passed. -/
theorem deadlines_change_where_they_should_incr :
    let s : Store := (Store.empty.set (ascii "k") (ascii "1") 50).set (ascii "old") [] 5
    (∀ e', findLive 9 (dispatch 9 ⟨ascii "INCR", [ascii "k"]⟩ s).2.data (ascii "k") = some e' →
      e'.expiresAtMs = 50) ∧
    (∃ e', findLive 9 (dispatch 9 ⟨ascii "SET", [ascii "k", []]⟩ s).2.data (ascii "k") =
      some e' ∧ e'.expiresAtMs = 0) ∧
    (∀ e', findLive 9 (dispatch 9 ⟨ascii "INCR", [ascii "old"]⟩ s).2.data (ascii "old") =
      some e' → e'.expiresAtMs = 0) := by
  intro s
  have hlive : findLive 9 s.data (ascii "k") = some ⟨.string (ascii "1"), 50⟩ := by decide
  have hoption : ¬ SetsDeadline ⟨ascii "SET", [ascii "k", []]⟩ := by
    rintro ⟨-, arg, harg, -⟩
    cases harg
  refine ⟨fun e' h => ?_, ?_, fun e' h => ?_⟩
  · exact (deadlines_change_where_they_should 9 _ s).1 (by decide) _ _ e' hlive h
  · exact (deadlines_change_where_they_should 9 ⟨ascii "SET", [ascii "k", []]⟩ s).2.1
      (.inr ⟨rfl, hoption, by decide⟩) (ascii "k") (by decide)
  · have hset : ¬ SetsDeadline ⟨ascii "INCR", [ascii "old"]⟩ := fun hset =>
      absurd hset.1 (by decide)
    exact (deadlines_change_where_they_should 9 _ s).2.2.2 hset (by decide) _ e' (by decide) h

end Redix
