import Redix.Base.BulkWrites
import Redix.Command.Deadlines
import Redix.Command.Isolation
import Redix.Command.Observation

/-!
# Retries

A client that gets no reply does not know whether its command was executed, and may send it
again. Most commands forgive that: done again, while nobody else has worked on their keys,
they leave the store as it was, as far as can be observed ever after. Those that take a
deadline from the clock move it, unless the clock stands still; and those that count, append
or take show it (`accumulating`).

- `Update.Repeats`, `specTable_repeats`: the operations that can be done again;
- `Asks.again`: whole programs, on what the first execution has left of their keys;
- `specTable_steady`: which commands do not read the clock;
- `retries_forgiven`: a retry cannot be observed, but for the commands listed, where it can.
-/

namespace Redix

open Keyspace Observation

variable {α ν : Type} {now later : UInt64} {s : Store} {u : Update} {o : Option Entry} {e : Entry}

/-! ## Operations on one key -/

/-- What a write leaves of an entry. -/
def Update.after (u : Update) (o : Option Entry) : Option Entry := (u.run o).2.getD o

/-- Done again later, on what is still live of what it left, the write changes nothing. -/
def Update.RepeatsOn (u : Update) (now later : UInt64) (o : Option Entry) : Prop :=
  let o' := (u.after o).filter (alive now)
  o'.filter (alive later) = o' → (u.after o').filter (alive later) = o'

/-- The write can be done again, on any live entry. -/
structure Update.Repeats (u : Update) : Prop where
  on : ∀ {now later : UInt64} {o : Option Entry}, now ≤ later → o.filter (alive now) = o →
    u.RepeatsOn now later o

/-- What is written lives, and is written again as it is. -/
theorem repeatsOn_some (hfirst : u.after o = some e) (halive : alive now e = true)
    (hagain : u.after (some e) = some e) : u.RepeatsOn now later o := by
  rw [Update.RepeatsOn, hfirst, Option.filter_some_pos halive, hagain]
  exact fun h => h

/-- What is dead or gone after the first time is so after the second. -/
theorem repeatsOn_none (hfirst : (u.after o).filter (alive now) = none)
    (hnone : (u.after none).filter (alive later) = none) : u.RepeatsOn now later o := by
  rw [Update.RepeatsOn, hfirst]
  exact fun _ => hnone

/-- What is written may be dead on arrival. -/
theorem repeatsOn_written (hle : now ≤ later) (hfirst : u.after o = some e)
    (hagain : u.after (some e) = some e) (hnone : u.after none = none ∨ u.after none = some e) :
    u.RepeatsOn now later o := by
  cases halive : alive now e with
  | true => exact repeatsOn_some hfirst halive hagain
  -- what is written may have expired already, and then the retry finds no entry
  | false =>
    refine repeatsOn_none (by rw [hfirst, Option.filter_some_neg halive]) ?_
    rcases hnone with hnone | hnone
    · rw [hnone]
      rfl
    · have hdead : alive later e = false :=
        Bool.eq_false_iff.mpr fun hlater => Bool.eq_false_iff.mp halive (alive_mono hle hlater)
      rw [hnone, Option.filter_some_neg hdead]

/-- What is left as it was is so the second time. -/
theorem repeatsOn_kept (hlive : o.filter (alive now) = o) (hkept : u.after o = o) :
    u.RepeatsOn now later o := by
  rw [Update.RepeatsOn, hkept, hlive, hkept]
  exact fun h => h

/-- What a filter for the living leaves lives. -/
theorem alive_of_filter (h : (some e).filter (alive now) = some e) : alive now e = true :=
  (Option.filter_eq_some_iff.mp h).2

/-- `SET` writes the same value again; with `NX`, it is refused the second time. -/
theorem set_repeats (value : Bytes) (opts : SetOptions) : (Update.set value opts).Repeats := by
  refine ⟨fun {now later o} hle hlive => ?_⟩
  by_cases hblocked : ((opts.nx && o.isSome) || (opts.xx && !o.isSome)) = true
  · exact repeatsOn_kept hlive (by rw [Update.after, Update.run, if_pos hblocked]; rfl)
  · refine repeatsOn_written (e := ⟨.string value, opts.expiresAt⟩) hle ?_ ?_ ?_
    · rw [Update.after, Update.run, if_neg hblocked]
      rfl
    · -- with `NX` the second time is refused
      rw [Update.after, Update.run]
      split_ifs <;> rfl
    · rw [Update.after, Update.run]
      split_ifs
      · exact .inl rfl
      · exact .inr rfl

/-- `GETSET` writes the same value again. -/
theorem getset_repeats (value : Bytes) : (Update.getset value).Repeats := by
  refine ⟨fun {now later o} hle hlive => ?_⟩
  cases o with
  | none => exact repeatsOn_some rfl rfl rfl
  | some e =>
    cases hget : stringValue.get? e.value with
    | none => exact repeatsOn_kept hlive (by rw [Update.after, Update.run, onType_wrong hget]; rfl)
    | some old =>
      refine repeatsOn_some (e := ⟨.string value, 0⟩) ?_ rfl rfl
      rw [Update.after, Update.run, onType_right hget]
      rfl

/-- The same deadline is set again. -/
theorem expire_repeats (deadline : UInt64) : (Update.expire deadline).Repeats := by
  refine ⟨fun {now later o} hle hlive => ?_⟩
  cases o with
  | none => exact repeatsOn_kept hlive rfl
  | some e => exact repeatsOn_written hle rfl rfl (.inl rfl)

/-- What has no deadline has none again. -/
theorem persist_repeats : Update.persist.Repeats := by
  refine ⟨fun {now later o} hle hlive => ?_⟩
  cases o with
  | none => exact repeatsOn_kept hlive rfl
  | some e => exact repeatsOn_written hle rfl rfl (.inl rfl)

/-- What is added is there the second time. -/
theorem add_repeats {T : ValueKind α} {fresh : α} {grow : α → Nat × α}
    {hgrow : ∀ d, (T.wrap (grow d).2).NonEmpty} (hagain : ∀ d, (grow (grow d).2).2 = (grow d).2) :
    (Update.add T fresh grow hgrow).Repeats := by
  have hafter (e : Entry) (d : α) :
      (Update.add T fresh grow hgrow).after (some { e with value := T.wrap (grow d).2 }) =
        some { e with value := T.wrap (grow d).2 } := by
    rw [Update.after, Update.add_right (T.get?_wrap _), hagain]
    rfl
  refine ⟨fun {now later o} hle hlive => ?_⟩
  cases o with
  | none => exact repeatsOn_some rfl rfl (hafter ⟨T.wrap fresh, 0⟩ fresh)
  | some e =>
    cases hget : T.get? e.value with
    | none => exact repeatsOn_kept hlive (by rw [Update.after, Update.add_wrong hget]; rfl)
    | some d =>
      -- the deadline stays
      have halive : alive now { e with value := T.wrap (grow d).2 } = true :=
        (alive_of_filter hlive : alive now e = true)
      refine repeatsOn_some ?_ halive (hafter e d)
      rw [Update.after, Update.add_right hget]
      rfl

/-- What is removed is gone the second time. -/
theorem remove_repeats {T : ValueKind (FlatMap Bytes ν)} {elems : List Bytes}
    {hT : ∀ d, d.isEmpty = false → (T.wrap d).NonEmpty}
    (hagain : ∀ d : FlatMap Bytes ν, (FlatMap.eraseAll elems (FlatMap.eraseAll elems d).2).2 =
      (FlatMap.eraseAll elems d).2) : (Update.remove T elems hT).Repeats := by
  refine ⟨fun {now later o} hle hlive => ?_⟩
  cases o with
  | none => exact repeatsOn_kept hlive rfl
  | some e =>
    cases hget : T.get? e.value with
    | none => exact repeatsOn_kept hlive (by rw [Update.after, Update.remove_wrong hget]; rfl)
    | some d =>
      have hafter : (Update.remove T elems hT).after (some e) =
          if (FlatMap.eraseAll elems d).2.isEmpty then none
          else some { e with value := T.wrap (FlatMap.eraseAll elems d).2 } := by
        rw [Update.after, Update.remove_right hget]
        rfl
      -- the last element takes the key with it, and the retry finds none
      cases hempty : (FlatMap.eraseAll elems d).2.isEmpty with
      | true =>
        rw [hempty, if_pos rfl] at hafter
        exact repeatsOn_none (by rw [hafter]; rfl) rfl
      | false =>
        rw [hempty, if_neg Bool.false_ne_true] at hafter
        have halive : alive now { e with value := T.wrap (FlatMap.eraseAll elems d).2 } = true :=
          (alive_of_filter hlive : alive now e = true)
        refine repeatsOn_some hafter halive ?_
        rw [Update.after, Update.remove_right (T.get?_wrap _), hagain, hempty]
        rfl

/-! ## The table -/

/-- The commands that count, append or take. -/
def accumulating : List Bytes :=
  ["APPEND", "DECR", "DECRBY", "INCR", "INCRBY", "LPOP", "LPUSH", "RPOP", "RPUSH"].map ascii

theorem repeats_set : Spec.set.Updates Update.Repeats := by
  intro now rest u hparse
  cases rest with
  | nil => cases hparse
  | cons value options =>
    simp only at hparse
    split at hparse <;> cases hparse
    exact set_repeats _ _

theorem repeats_hset : Spec.hset.Updates Update.Repeats := by
  intro now rest u hparse
  simp only at hparse
  split_ifs at hparse
  cases hparse
  exact add_repeats (FlatMap.insertAll_again _)

/-- The writes of the other rows can be done again. -/
theorem specTable_repeats :
    ∀ row ∈ specTable, row.1 ∉ accumulating → row.2.Updates Update.Repeats := by
  simp only [specTable, List.forall_mem_cons, List.not_mem_nil, false_imp_iff,
    implies_true, and_true]
  -- one goal for each row; they differ in the form of the write
  repeat' apply And.intro
  all_goals
    first
    | exact fun _ => trivial
    | exact fun h => absurd (by decide) h
    | exact fun _ => repeats_set
    | exact fun _ => repeats_hset
    | exact fun _ => updates_noArgs persist_repeats
    | exact fun _ => updates_oneArg fun _ _ _ h => by cases h; exact getset_repeats _
    | exact fun _ => updates_oneArg fun _ _ _ => unsigned_ok fun _ => by exact expire_repeats _
    | exact fun _ => updates_someArgs fun _ _ => add_repeats (FlatMap.insertAll_again _)
    | exact fun _ => updates_someArgs fun _ _ => remove_repeats (FlatMap.eraseAll_again _)

/-- The row reads its write off the arguments, whatever the time is. -/
def Spec.Steady : Spec → Prop
  | update parse => ∀ now later rest, parse now rest = parse later rest
  | _ => True

/-- But for the commands that take a deadline from the clock, no command reads it to parse its
arguments. -/
theorem specTable_steady : ∀ row ∈ specTable,
    row.1 ∉ ["EXPIRE", "PEXPIRE", "SET"].map ascii → row.2.Steady := by
  simp only [specTable, List.forall_mem_cons, List.not_mem_nil, false_imp_iff,
    implies_true, and_true]
  repeat' apply And.intro
  all_goals
    first
    | exact fun _ => trivial
    | exact fun _ _ _ _ => rfl
    | exact fun h => absurd (by decide) h

/-- The command takes no deadline from the clock. -/
def Command.Steady (cmd : Command) : Prop :=
  cmd.name ∉ ["EXPIRE", "PEXPIRE"].map ascii ∧ ¬ SetsDeadline cmd

/-- Without `EX` and `PX`, the options of `SET` do not depend on the clock. -/
theorem setOptions_steady {args : List Bytes} (hargs : ∀ arg ∈ args, ¬ isDeadlineOption arg)
    (opts : SetOptions) : setOptions now args opts = setOptions later args opts := by
  induction args generalizing opts with
  | nil => rfl
  | cons arg rest ih =>
    obtain ⟨harg, hrest⟩ := List.forall_mem_cons.mp hargs
    have harg : ¬ (uppercase arg = ascii "EX" ∨ uppercase arg = ascii "PX") := harg
    unfold setOptions
    simp only [if_neg harg, ih hrest]

/-- A write asks the same of the store at any time, if it takes no deadline from the clock. -/
theorem program_steady {cmd : Command} {spec : Spec}
    (hrow : specTable.lookup cmd.name = some spec) (hwrites : spec.writes = true)
    (hsteady : cmd.Steady) : spec.program now cmd.args = spec.program later cmd.args := by
  cases spec with
  | talk | look | gather | survey => cases hwrites
  | delete | assign | move | flush => rfl
  | update parse =>
    obtain ⟨name, args⟩ := cmd
    cases args with
    | nil => rfl
    | cons key rest =>
      suffices hparse : parse now rest = parse later rest by simp only [Spec.program, hparse]
      -- SET reads the clock in its options alone
      by_cases hset : name = ascii "SET"
      · subst hset
        have hspec : Spec.update parse = Spec.set := Option.some.inj (hrow.symm.trans rfl)
        obtain rfl := Spec.update.inj hspec
        cases rest with
        | nil => rfl
        | cons value options =>
          have hoptions : ∀ arg ∈ options, ¬ isDeadlineOption arg := fun arg harg h =>
            hsteady.2 ⟨rfl, arg, harg, h⟩
          simp only [@setOptions_steady now later options hoptions {}]
      · have hname : name ∉ ["EXPIRE", "PEXPIRE", "SET"].map ascii := by
          have hdates := hsteady.1
          simp only [List.map_cons, List.map_nil, List.mem_cons, List.not_mem_nil, or_false,
            not_or] at hdates ⊢
          exact ⟨hdates.1, hdates.2, hset⟩
        exact specTable_steady _ (mem_of_lookup hrow) hname now later rest

/-! ## Programs -/

/-- What is live of what was just written. -/
theorem findLive_put_self (now : UInt64) (data : DataMap) (key : Bytes) (o : Option Entry) :
    findLive now (data.put key o) key = o.filter (alive now) := by
  rw [findLive_eq, FlatMap.find?_put_self]

/-- Removing what is not live shows nowhere. -/
theorem findLive_put_none {data : DataMap} {key : Bytes} (h : findLive now data key = none)
    (key' : Bytes) : findLive now (data.put key none) key' = findLive now data key' := by
  by_cases hkey : key = key'
  · subst hkey
    rw [findLive_put_self, h]
    rfl
  · rw [findLive_eq, findLive_eq, FlatMap.find?_put_ne _ hkey]

/-- **Done again**: a program that finds of its keys what it left, if nothing there has expired,
leaves that. -/
theorem Spec.Asks.again {spec : Spec} {args : List Bytes} {p : Program Bytes Entry Reply}
    {s' : Store} (h : spec.Asks now args p) (hrepeats : spec.Updates Update.Repeats)
    (hlocal : spec.keyArgs ≠ .whole) (hle : now ≤ later)
    (hleft : ∀ key ∈ spec.keyArgs.of args,
      findLive later s'.data key = findLive now (s.exec now p).2.data key) :
    ∀ key ∈ spec.keyArgs.of args,
      findLive later (s'.exec later p).2.data key = findLive later s'.data key := by
  intro key hkey
  have hkeep := hleft key hkey
  cases h with
  | reply => rfl
  | look h => rfl
  | gather answer => rw [exec_reads]
  | survey => exact absurd rfl hlocal
  | flush => exact absurd rfl hlocal
  | @update parse k rest u h =>
    obtain rfl : key = k := List.mem_singleton.mp hkey
    rw [findLive_exec_step] at hkeep ⊢
    have hagain := (hrepeats now rest u h).on hle (filter_findLive now s.data key)
    rw [hkeep]
    refine hagain ?_
    show ((u.after (findLive now s.data key)).filter (alive now)).filter (alive later) = _
    rw [Update.after, ← hkeep, filter_findLive]
  | delete =>
    have hgone (now : UInt64) (s : Store) :
        findLive now (s.exec now (.cells (args.map fun key => (key, removal))
          fun n => Reply.count n)).2.data key = none := by
      rw [findLive_eq]
      exact congrArg (Option.filter (alive now))
        (find?_removals now (fun n => Reply.count n) args s.data hkey)
    rw [hkeep, hgone, hgone]
  | assign =>
    by_cases hmem : key ∈ (pairs args).map Prod.fst
    · -- what is assigned has no deadline, and does not depend on what was there
      obtain ⟨e, hfind, hnone⟩ := find?_assign now args s.data hmem
      obtain ⟨e', hfind', hnone'⟩ := find?_assign later args s'.data hmem
      have hsame : e' = e := by
        have hcells := @Program.find?_assignments Bytes Entry _ key (alive later) (alive now)
          ((pairs args).map fun pair => (pair.1, ⟨.string pair.2, 0⟩)) (by rwa [List.map_map])
          s'.data s.data
        rw [List.map_map] at hcells
        rw [Program.run_cells] at hfind hfind'
        exact Option.some.inj (hfind'.symm.trans (hcells.trans hfind))
      have hfirst : findLive now (s.exec now _).2.data key = some e :=
        findLive_of_noDeadline hfind hnone
      have hagain : findLive later (s'.exec later _).2.data key = some e' :=
        findLive_of_noDeadline hfind' hnone'
      exact hagain.trans ((congrArg some hsame).trans (hkeep.trans hfirst).symm)
    · rw [findLive_eq, findLive_eq]
      refine congrArg (Option.filter (alive later)) ?_
      refine Program.run_frame (F := (· ∈ (pairs args).map Prod.fst)) hmem _ ?_
      refine Program.within_cells (fun u hu => ?_) _
      obtain ⟨pair, hpair, rfl⟩ := List.mem_map.mp hu
      exact List.mem_map_of_mem hpair
  | move src dst =>
    have hrun (now : UInt64) (s : Store) :
        (s.exec now (Program.move src dst Reply.ok Reply.noSuchKey)).2.data =
          (findLive now s.data src).elim (s.data.put src none) fun e =>
            (s.data.put src none).put dst (some e) := by
      rw [findLive_eq]
      simp only [Store.exec, Program.move, Program.run]
      cases (s.data.find? src).filter (alive now) <;> rfl
    have hsrc := hleft src List.mem_cons_self
    rw [hrun] at hkeep hsrc ⊢
    cases hlive : findLive now s.data src with
    | none =>
      have hgone : findLive later s'.data src = none := by
        rw [hsrc, hlive]
        exact (findLive_put_self now s.data src none).trans rfl
      rw [hgone]
      exact findLive_put_none hgone key
    | some e =>
      rw [hlive] at hsrc
      by_cases hself : src = dst
      · subst hself
        obtain rfl : key = src := (List.mem_pair.mp hkey).elim id id
        have hthere : findLive later s'.data key = some e := by
          rw [hsrc]
          exact (findLive_put_self _ _ _ _).trans (Option.filter_some_pos (alive_of_findLive hlive))
        rw [hthere]
        exact (findLive_put_self _ _ _ _).trans
          (Option.filter_some_pos (alive_of_findLive hthere))
      · -- the second time, there is no source
        have hgone : findLive later s'.data src = none := by
          rw [hsrc, findLive_eq, Option.elim, FlatMap.find?_put_ne _ (Ne.symm hself),
            FlatMap.find?_put_self]
          rfl
        rw [hgone]
        exact findLive_put_none hgone key

/-! ## Commands -/

/-- **A retry**: a command done again changes nothing live. In between there may be sweeps and
commands on other keys, but no key that it names may have expired. -/
theorem dispatch_again {cmd : Command} {between : Trace} (hlocal : keyArgs cmd.name ≠ .whole)
    (hname : cmd.name ∉ accumulating) (hclock : later = now ∨ cmd.Steady) (hle : now ≤ later)
    (hfrom : From now between) (hlast : ∀ event ∈ between, event.1 ≤ later)
    (hforeign : ∀ event ∈ between, Foreign (· ∈ footprint cmd) event.2)
    (hlives : ∀ key ∈ footprint cmd, findLive later (dispatch now cmd s).2.data key =
      findLive now (dispatch now cmd s).2.data key) :
    let s' := after Event.step between (dispatch now cmd s).2
    (dispatch later cmd s').2.live later = s'.live later := by
  intro s'
  cases hrow : specTable.lookup cmd.name with
  | none => rw [dispatch_unknown hrow]
  | some spec =>
    have hmem := mem_of_lookup hrow
    cases hwrites : spec.writes with
    | false =>
      have hread : isWriteCommand cmd = false := (specTable_writes _ hmem).symm.trans hwrites
      rw [dispatch_readOnly hread]
    | true =>
      have hsame : spec.program later cmd.args = spec.program now cmd.args := by
        rcases hclock with rfl | hsteady
        · rfl
        · exact program_steady hrow hwrites hsteady
      have hfirst : (dispatch now cmd s).2 = (s.exec now (spec.program now cmd.args)).2 := by
        rw [dispatch_eq hrow]
        rfl
      have hsecond : (dispatch later cmd s').2 = (s'.exec later (spec.program now cmd.args)).2 := by
        rw [dispatch_eq hrow, ← hsame]
        rfl
      have hkeys : spec.keyArgs = keyArgs cmd.name := specTable_keyArgs _ hmem
      -- what the first execution left is still there
      have hagree : AgreeOn (· ∈ footprint cmd) later s' (dispatch now cmd s).2 :=
        after_foreign hfrom hforeign hle hlast fun _ _ => rfl
      have hleft (key : Bytes) (hkey : key ∈ spec.keyArgs.of cmd.args) :
          findLive later s'.data key =
            findLive now (s.exec now (spec.program now cmd.args)).2.data key := by
        have hfoot : key ∈ footprint cmd := by rwa [footprint, ← hkeys]
        have hkept := hagree key hfoot
        rw [find?_live, find?_live] at hkept
        rw [hkept, hlives key hfoot, hfirst]
      refine FlatMap.ext_find? fun key => ?_
      rw [find?_live, find?_live]
      by_cases hkey : key ∈ footprint cmd
      · rw [hsecond]
        exact (spec.asks now cmd.args).again (specTable_repeats _ hmem hname)
          (by rwa [hkeys]) hle hleft key (by rwa [hkeys])
      · have hflush : cmd.name ≠ ascii "FLUSHDB" := by
          intro hflush
          rw [hflush] at hlocal
          exact hlocal rfl
        rw [findLive_eq, findLive_eq, dispatch_frame later hkey hflush]

/-- **Retries are forgiven.** Let a command be executed and then, unnoticed by its client, once
more; in between, let there be only sweeps and commands that do not name its keys, and let none
of these expire. If the command does not count, append or take, and takes no deadline from the
clock, or the clock reads the same, then nobody will ever see that it was executed twice. And
of each command that counts, appends or takes, a retry can be seen. -/
theorem retries_forgiven :
    (∀ (now later : UInt64) (cmd : Command) (between : Trace) (s : Store),
      keyArgs cmd.name ≠ .whole → cmd.name ∉ accumulating → later = now ∨ cmd.Steady →
      now ≤ later → From now between → (∀ event ∈ between, event.1 ≤ later) →
      (∀ event ∈ between, Foreign (· ∈ footprint cmd) event.2) →
      (∀ key ∈ footprint cmd, findLive later (dispatch now cmd s).2.data key =
        findLive now (dispatch now cmd s).2.data key) →
      let s' := after Event.step between (dispatch now cmd s).2
      (dispatch later cmd s').2.Alike later s') ∧
    ∀ name ∈ accumulating, ∃ args s, let s' := (dispatch 1 ⟨name, args⟩ s).2
      ¬ (dispatch 1 ⟨name, args⟩ s').2.Alike 1 s' := by
  refine ⟨fun now later cmd between s hlocal hname hclock hle hfrom hlast hforeign hlives =>
    alike_of_live (dispatch_again hlocal hname hclock hle hfrom hlast hforeign hlives), ?_⟩
  -- for each of the nine, a read that tells the retry from the first try
  have hshown {s s' : Store} (cmd : Command) (h : (dispatch 1 cmd s).1 ≠ (dispatch 1 cmd s').1) :
      ¬ s.Alike 1 s' := fun halike => h (halike.command (UInt64.le_refl 1) cmd).1
  let lists := (dispatch 1 ⟨ascii "RPUSH", [ascii "l", [], [], []]⟩ .empty).2
  simp only [accumulating, List.map_cons, List.map_nil, List.forall_mem_cons]
  refine ⟨⟨[ascii "k", ascii "x"], .empty, hshown ⟨ascii "GET", [ascii "k"]⟩ (by decide)⟩,
    ⟨[ascii "k"], .empty, hshown ⟨ascii "GET", [ascii "k"]⟩ (by decide)⟩,
    ⟨[ascii "k", ascii "1"], .empty, hshown ⟨ascii "GET", [ascii "k"]⟩ (by decide)⟩,
    ⟨[ascii "k"], .empty, hshown ⟨ascii "GET", [ascii "k"]⟩ (by decide)⟩,
    ⟨[ascii "k", ascii "1"], .empty, hshown ⟨ascii "GET", [ascii "k"]⟩ (by decide)⟩,
    ⟨[ascii "l"], lists, hshown ⟨ascii "LLEN", [ascii "l"]⟩ (by decide)⟩,
    ⟨[ascii "l", []], lists, hshown ⟨ascii "LLEN", [ascii "l"]⟩ (by decide)⟩,
    ⟨[ascii "l"], lists, hshown ⟨ascii "LLEN", [ascii "l"]⟩ (by decide)⟩,
    ⟨[ascii "l", []], lists, hshown ⟨ascii "LLEN", [ascii "l"]⟩ (by decide)⟩, ?_⟩
  exact fun name hname => absurd hname List.not_mem_nil

/-- `SADD` is retried after another client has worked on another key. -/
theorem retries_forgiven_sadd :
    let cmd : Command := ⟨ascii "SADD", [ascii "k", ascii "m"]⟩
    let s' := after Event.step [(2, .command ⟨ascii "INCR", [ascii "n"]⟩), (3, .sweep)]
      (dispatch 1 cmd .empty).2
    (dispatch 4 cmd s').2.Alike 4 s' := by
  intro cmd s'
  have hsteady : cmd.Steady := ⟨by decide, fun h => absurd h.1 (by decide)⟩
  refine retries_forgiven.1 1 4 cmd _ .empty (by decide) (by decide) (.inr hsteady) (by decide)
    ⟨by decide, by decide, trivial⟩ (by decide) ?_ (by decide)
  exact List.forall_mem_cons.mpr ⟨⟨by decide, by decide⟩, List.forall_mem_singleton.mpr trivial⟩

end Redix
