import Redix.Command.Retries

/-!
# Rebuilding a store from its writes

A log of the commands that `is_write_command` lists is meant to rebuild the store when it is
replayed. The replay happens at another time, and then deadlines that were taken from the clock
come out differently. Without these, time does not matter at all: the replay gives the same
map, entry for entry, at whatever clock readings it is done, and whatever reads and sweeps
stood between the writes.

- `Store.Timeless`: no entry has a deadline;
- `run_timeless`: a program that writes no deadlines does the same at any time;
- `step_timeless`: so does a step of the store;
- `replay_rebuilds`: runs.
-/

namespace Redix

open Keyspace Observation

variable {now later : UInt64} {s : Store} {cmd : Command}

/-! ## Without deadlines -/

/-- The entry has no deadline. -/
def Entry.Timeless (e : Entry) : Prop := e.expiresAtMs = 0

/-- No entry has a deadline. -/
def Store.Timeless (s : Store) : Prop := ∀ key, ∀ e ∈ s.data.find? key, e.Timeless

theorem alive_of_timeless {e : Entry} (h : e.Timeless) (now : UInt64) : alive now e = true := by
  have hzero : e.expiresAtMs = 0 := h
  simp [alive, Entry.isExpired, hzero]

theorem purge_of_timeless {data : DataMap} (h : ∀ key, ∀ e ∈ data.find? key, e.Timeless)
    (now : UInt64) : purge (alive now) data = data := by
  refine FlatMap.ext_find? fun key => ?_
  rw [find?_purge]
  cases hfind : data.find? key with
  | none => rfl
  | some e => exact Option.filter_some_pos (alive_of_timeless (h key e hfind) now)

/-- A program that writes no deadlines does the same at any time, where there are none. -/
theorem run_timeless {ρ : Type} (p : Program Bytes Entry ρ) :
    ∀ {data : DataMap}, p.Keeps Entry.Timeless → (∀ key, ∀ e ∈ data.find? key, e.Timeless) →
      p.run (alive now) data = p.run (alive later) data := by
  -- what the program has written so far has no deadline either
  induction p with
  | ret reply => exact fun _ _ => rfl
  | read key next ih =>
    intro data hp h
    have hread (now : UInt64) : (data.find? key).filter (alive now) = data.find? key := by
      rw [← find?_purge, purge_of_timeless h]
    rw [Program.run, Program.run, hread, hread]
    exact ih _ (hp _ (h key)) h
  | write key o next ih =>
    intro data hp h
    refine ih hp.2 fun key' e he => ?_
    rw [FlatMap.find?_put] at he
    split_ifs at he
    · exact hp.1 e he
    · exact h key' e he
  | scan next ih =>
    intro data hp h
    rw [Program.run, Program.run, purge_of_timeless h, purge_of_timeless h]
    exact ih _ (hp _) h
  | clear next ih => exact fun hp h => ih hp fun key e he => by cases he

/-! ## Commands -/

/-- A write that sets no deadline. -/
def Update.Undated (u : Update) : Prop := u.deadline 0 = 0

theorem Update.keeps_timeless {u : Update} (hu : u.Undated) {o : Option Entry}
    (ho : ∀ e ∈ o, e.Timeless) : ∀ o' ∈ (u.run o).2, ∀ e ∈ o', e.Timeless := by
  -- an error writes back what was there
  cases herror : (u.run o).1.isError with
  | true =>
    have hclean : (u.run o).2 = some o := u.run_clean herror
    rw [hclean]
    rintro o' ⟨⟩
    exact ho
  | false =>
    intro o' ho' e he
    have hdeadline : deadlineOf o = 0 := by
      cases o with
      | none => rfl
      | some e => exact ho e rfl
    have hdate := u.run_deadline herror o' ho' e he
    rw [hdeadline] at hdate
    exact hdate.trans hu

/-- `SET` without `EX` and `PX`. -/
theorem set_undated {rest : List Bytes} {value : Bytes} {opts : SetOptions}
    (hparse : (match rest with
      | [] => .error .wrongArity
      | value :: options =>
        match setOptions now options {} with
        | .error .malformed => .error .syntaxError
        | .error .notInteger => .error .notInteger
        | .ok opts => .ok (.set value opts) : Except Reply Update) = .ok (.set value opts))
    (hoption : ¬ ∃ arg ∈ rest.drop 1, isDeadlineOption arg) :
    (Update.set value opts).Undated := by
  cases rest with
  | nil => cases hparse
  | cons value' options =>
    cases hopts : setOptions now options {} with
    | error error => cases error <;> simp only [hopts] at hparse <;> cases hparse
    | ok opts' =>
      simp only [hopts] at hparse
      cases hparse
      exact setOptions_expiresAt (fun arg harg h => hoption ⟨arg, harg, h⟩) hopts

/-- The program of a command that takes no deadline from the clock writes none. -/
theorem program_timeless {spec : Spec} (hrow : specTable.lookup cmd.name = some spec)
    (hsteady : cmd.Steady) : (spec.program now cmd.args).Keeps Entry.Timeless := by
  have hserves := specTable_serves _ (mem_of_lookup hrow)
  have hasks := spec.asks now cmd.args
  generalize spec.program now cmd.args = p at hasks
  obtain ⟨name, args⟩ := cmd
  cases hasks with
  | reply => trivial
  | look h => exact fun _ _ => trivial
  | @update parse key rest u h =>
    have hundated : u.Undated := by
      cases u with
      | set value opts =>
        obtain rfl : name = ascii "SET" := List.mem_singleton.mp (hserves now rest _ h)
        obtain rfl := Spec.update.inj (Option.some.inj (hrow.symm.trans rfl) : _ = Spec.set)
        exact set_undated h fun hoption => hsteady.2 ⟨rfl, hoption⟩
      | expire deadline => exact absurd (hserves now rest _ h) hsteady.1
      | count | append | getset | persist | add | remove | pop => rfl
    exact Program.keeps_step fun o ho => Update.keeps_timeless hundated ho
  | gather => exact Program.keeps_reads fun _ => trivial
  | delete =>
    refine Program.keeps_cells (fun u hu o _ e he => ?_) _
    obtain ⟨key, -, rfl⟩ := List.mem_map.mp hu
    cases o <;> cases he
  | assign =>
    refine Program.keeps_cells (fun u hu o _ e he => ?_) _
    obtain ⟨pair, -, rfl⟩ := List.mem_map.mp hu
    cases he
    rfl
  | move src dst => exact Program.keeps_move src dst _ _
  | survey => exact fun _ => trivial
  | flush => trivial

/-- **One command** without deadlines: it does the same at any time, and leaves none. -/
theorem dispatch_timeless (hsteady : cmd.Steady) (h : s.Timeless) :
    (dispatch now cmd s).2 = (dispatch later cmd s).2 ∧ (dispatch now cmd s).2.Timeless := by
  cases hrow : specTable.lookup cmd.name with
  | none =>
    rw [dispatch_unknown hrow, dispatch_unknown hrow]
    exact ⟨rfl, h⟩
  | some spec =>
    have hkeeps : (spec.program now cmd.args).Keeps Entry.Timeless :=
      program_timeless hrow hsteady
    have hsame (hwrites : spec.writes = true) :
        spec.program now cmd.args = spec.program later cmd.args :=
      program_steady hrow hwrites hsteady
    rw [dispatch_eq hrow, dispatch_eq hrow]
    refine ⟨?_, Program.run_keeps _ hkeeps h⟩
    show Store.mk ((spec.program now cmd.args).run (alive now) s.data).2 =
      Store.mk ((spec.program later cmd.args).run (alive later) s.data).2
    -- a read may be parsed by the clock, a write may not
    cases hwrites : spec.writes with
    | false =>
      rw [Program.run_readOnly _ ((spec.asks now cmd.args).readOnly hwrites),
        Program.run_readOnly _ ((spec.asks later cmd.args).readOnly hwrites)]
    | true =>
      rw [hsame hwrites, run_timeless _ (program_timeless hrow hsteady) h]

/-- A sweep finds nothing to remove. -/
theorem sweepExpired_timeless (h : s.Timeless) : s.sweepExpired now = s := by
  have hswept : (s.sweepExpired now).Timeless := fun key e he =>
    h key e (sweepLoop_find? now 20 _ _ key e he)
  have hlive : (s.sweepExpired now).live now = s.live now := live_sweepExpired now s
  rw [Store.live, Store.live, purge_of_timeless hswept, purge_of_timeless h] at hlive
  exact congrArg Store.mk hlive

/-! ## Runs -/

/-- The command of an event, if it is one of the write commands. -/
def Event.write? : Event → Option Command
  | command cmd => if isWriteCommand cmd then some cmd else none
  | sweep => none

/-- The write commands of a run. -/
def Trace.writes (trace : Trace) : List Command := (trace.map Prod.snd).filterMap Event.write?

/-- **One event** that is not a write leaves the store as it is; a write leaves what it leaves
at any other time. -/
theorem step_timeless {event : Event} (hsteady : ∀ cmd, event = .command cmd → cmd.Steady)
    (h : s.Timeless) :
    (event.step now s).2.Timeless ∧
      (event.step now s).2 = event.write?.elim s fun cmd => (dispatch later cmd s).2 := by
  cases event with
  | sweep =>
    have hsame : (Event.sweep.step now s).2 = s := sweepExpired_timeless h
    rw [hsame]
    exact ⟨h, rfl⟩
  | command cmd =>
    obtain ⟨hsame, hafter⟩ := @dispatch_timeless now later s cmd (hsteady cmd rfl) h
    refine ⟨hafter, ?_⟩
    show (dispatch now cmd s).2 = _
    rw [Event.write?]
    cases hwrite : isWriteCommand cmd with
    | true => exact hsame
    | false => exact dispatch_readOnly hwrite s

/-- **A replay rebuilds the store.** From a store without deadlines, let a run have any commands
that take no deadline from the clock, and sweeps, at whatever clock readings. The write commands
of the run alone, executed in their order at any other clock readings, lead to the same map,
entry for entry. -/
theorem replay_rebuilds {trace : Trace} {log : List (UInt64 × Command)}
    (hsteady : ∀ step ∈ trace, ∀ cmd, step.2 = .command cmd → cmd.Steady)
    (hlog : log.map Prod.snd = trace.writes) (h : s.Timeless) :
    execAll log s = after Event.step trace s := by
  induction trace generalizing log s with
  | nil =>
    obtain rfl := List.map_eq_nil_iff.mp hlog
    rfl
  | cons step rest ih =>
    obtain ⟨now, event⟩ := step
    obtain ⟨hfirst, hrest⟩ := List.forall_mem_cons.mp hsteady
    have hstep (later : UInt64) := @step_timeless now later s event hfirst h
    have hafter : after Event.step ((now, event) :: rest) s =
        after Event.step rest (event.step now s).2 := rfl
    rw [hafter]
    -- a step that is not logged leaves the store, and one that is does the same later
    cases hwrite : event.write? with
    | none =>
      rw [Trace.writes, List.map_cons, List.filterMap_cons_none hwrite] at hlog
      have hsame := (hstep now).2
      rw [hwrite] at hsame
      rw [hsame]
      exact ih hrest hlog h
    | some cmd =>
      rw [Trace.writes, List.map_cons, List.filterMap_cons_some hwrite] at hlog
      obtain ⟨⟨later, cmd'⟩, log', rfl, hcmd, hlog'⟩ := List.map_eq_cons_iff.mp hlog
      obtain rfl : cmd' = cmd := hcmd
      obtain ⟨htimeless, hsame⟩ := hstep later
      rw [hwrite] at hsame
      have hsame : (event.step now s).2 = (dispatch later cmd' s).2 := hsame
      rw [hsame] at htimeless ⊢
      exact ih hrest hlog' htimeless

/-- A log is replayed at one instant, years later. -/
theorem replay_rebuilds_later :
    let trace : Trace := [(5, .command ⟨ascii "SET", [ascii "k", ascii "1"]⟩), (6, .sweep),
      (7, .command ⟨ascii "GET", [ascii "k"]⟩), (9, .command ⟨ascii "INCR", [ascii "k"]⟩)]
    execAll [(900, ⟨ascii "SET", [ascii "k", ascii "1"]⟩), (900, ⟨ascii "INCR", [ascii "k"]⟩)]
      .empty = after Event.step trace .empty := by
  intro trace
  refine @replay_rebuilds .empty trace _ ?_ (by decide) fun key e he => by cases he
  have hset : (⟨ascii "SET", [ascii "k", ascii "1"]⟩ : Command).Steady :=
    ⟨by decide, fun ⟨_, arg, harg, _⟩ => by cases harg⟩
  have hother (name : Bytes) (args : List Bytes) (hname : name ∉ ["EXPIRE", "PEXPIRE"].map ascii)
      (hset : name ≠ ascii "SET") : (⟨name, args⟩ : Command).Steady :=
    ⟨hname, fun h => hset h.1⟩
  refine List.forall_mem_cons.mpr ⟨fun cmd heq => ?_, List.forall_mem_cons.mpr ⟨fun cmd heq => ?_,
    List.forall_mem_cons.mpr ⟨fun cmd heq => ?_, List.forall_mem_singleton.mpr fun cmd heq => ?_⟩⟩⟩
  · cases heq
    exact hset
  · cases heq
  · cases heq
    exact hother _ _ (by decide) (by decide)
  · cases heq
    exact hother _ _ (by decide) (by decide)

end Redix
