import Mathlib.Order.Bounds.Defs
import Redix.Command.Deadlines
import Redix.Store.Ranges

/-!
# What `TTL` and `PTTL` report

The time left is an unsigned difference, cast to a signed number that has two more values
to report (`-1` and `-2`), and rounded up to seconds by adding 999 first. A deadline may be
up to `2 ^ 64` away, a signed number holds half of that: beyond it the cast wraps, and already
a little before it the sum overflows, for which C++ has no result.

- `Truthful`: what the two commands should report of a key, in the integers;
- `truthful_iff`: they do so exactly if the deadline is at most `farthest` away;
- `storedDeadline?`: the deadline that a command stores, in the store it finds;
- `ttl_truthful`: hence they do throughout a run exactly if none of its commands stores a
  deadline farther away.
-/

namespace Redix

open Keyspace

variable {now now' : UInt64} {key : Bytes} {s : Store} {o : Option Entry}

/-! ## Reports -/

/-- `Store::ttl`, which reads the clock as `pttl` does. There is no result if the sum
overflows, which C++ leaves undefined. -/
def Store.ttlAt (s : Store) (now now' : UInt64) (key : Bytes) : Option Int64 :=
  let remaining := s.pttlAt now now' key
  if remaining ≤ 0 then some remaining
  else (checked (remaining.toInt + 999)).map (· / 1000)

/-- The sum, where it does not overflow. -/
theorem checked_add_999 {n : Int64} (h : InRange (n.toInt + 999)) :
    checked (n.toInt + 999) = some (n + 999) :=
  checked_add (b := 999) h

/-- Where there is a result, it is what `Store.ttl` has. -/
theorem ttl_of_ttlAt {n : Int64} (h : s.ttlAt now now key = some n) : s.ttl now key = n := by
  rw [Store.ttlAt] at h
  rw [Store.ttl, Store.pttl]
  split_ifs at h ⊢ with hsign
  · exact Option.some.inj h
  · obtain ⟨sum, hsum, rfl⟩ := Option.map_eq_some_iff.mp h
    have hrange := inRange_toInt sum
    rw [toInt_of_checked hsum] at hrange
    rw [Option.some.inj ((checked_add_999 hrange).symm.trans hsum)]

/-- A report on the time left of a live entry, if there is one: `-2` for no entry, `-1` for
no deadline, and otherwise a positive number that fits the time left. -/
def Reports (fits : Int → Int → Prop) (now : UInt64) (o : Option Entry) (n : Int64) : Prop :=
  (n = -2 ↔ o = none) ∧
  (n = -1 ↔ ∃ e, o = some e ∧ e.expiresAtMs = 0) ∧
  ∀ e, o = some e → e.expiresAtMs ≠ 0 →
    0 < n.toInt ∧ fits (e.expiresAtMs.toNat - now.toNat) n.toInt

/-- The milliseconds left. -/
def exactly (left n : Int) : Prop := n = left

/-- The least number of seconds that covers the milliseconds left. -/
def roundedUp (left n : Int) : Prop := IsLeast {m | left ≤ m * 1000} n

/-- `PTTL` and `TTL` report the truth about a key, the clock reading `now` in the liveness
check and `now'` for the time left; and rounding up does not overflow. -/
structure Truthful (now now' : UInt64) (s : Store) (key : Bytes) : Prop where
  pttl : Reports exactly now' (findLive now' s.data key) (s.pttlAt now now' key)
  ttl : ∃ n, s.ttlAt now now' key = some n ∧
    Reports roundedUp now' (findLive now' s.data key) n

/-- A report is what it has to be in each of the three cases. -/
theorem reports_of {fits : Int → Int → Prop} {n : Int64} (hnone : o = none → n = -2)
    (hforever : ∀ e, o = some e → e.expiresAtMs = 0 → n = -1)
    (hleft : ∀ e, o = some e → e.expiresAtMs ≠ 0 →
      0 < n.toInt ∧ fits (e.expiresAtMs.toNat - now.toNat) n.toInt) :
    Reports fits now o n := by
  -- the two answers below zero differ, and what is left is above it
  have hdistinct : (-1 : Int64) ≠ -2 := by decide
  have hpositive {e : Entry} (ho : o = some e) (hne : e.expiresAtMs ≠ 0) {m : Int64}
      (hm : m.toInt ≤ 0) : n ≠ m := by
    rintro rfl
    exact absurd (hleft e ho hne).1 (Int.not_lt.mpr hm)
  refine ⟨⟨fun hn => ?_, hnone⟩, ⟨fun hn => ?_, fun ⟨e, ho, hzero⟩ => hforever e ho hzero⟩,
    hleft⟩
  · cases ho : o with
    | none => rfl
    | some e =>
      by_cases hzero : e.expiresAtMs = 0
      · exact absurd ((hforever e ho hzero).symm.trans hn) hdistinct
      · exact absurd hn (hpositive ho hzero (by decide))
  · cases ho : o with
    | none => exact absurd (hn.symm.trans (hnone ho)) hdistinct
    | some e => exact ⟨e, rfl, by_contra fun hzero => hpositive ho hzero (by decide) hn⟩

/-! ## Clock readings -/

/-- What is live later is live now. -/
theorem findLive_of_later {data : DataMap} {e : Entry} (h : now ≤ now')
    (hlive : findLive now' data key = some e) : findLive now data key = some e := by
  rw [findLive_eq] at hlive ⊢
  obtain ⟨hfind, halive⟩ := Option.mem_filter_iff.mp hlive
  exact Option.mem_filter_iff.mpr ⟨hfind, alive_mono h halive⟩

/-- The second clock reading decides. -/
theorem pttlAt_eq (h : now ≤ now') :
    s.pttlAt now now' key = pttlOf now' (findLive now' s.data key) := by
  rw [Store.pttlAt]
  cases hlive : findLive now s.data key with
  | none =>
    -- an entry that is live later was live at the first reading
    cases hlater : findLive now' s.data key with
    | none => rfl
    | some e =>
      have hlive' := findLive_of_later h hlater
      rw [hlive] at hlive'
      cases hlive'
  | some e =>
    have hfind : s.data.find? key = some e := by
      rw [findLive_eq] at hlive
      exact (Option.mem_filter_iff.mp hlive).1
    rw [findLive, hfind]
    by_cases hzero : e.expiresAtMs = 0
    · simp [Entry.isExpired, pttlOf, hzero]
    · by_cases hpast : e.expiresAtMs ≤ now'
      · simp [Entry.isExpired, pttlOf, hzero, hpast]
      · simp [Entry.isExpired, pttlOf, hzero, hpast]

/-! ## The time left of an entry -/

/-- How far away a deadline may be: the time left, plus 999, is a signed number. -/
def farthest : Nat := 2 ^ 63 - 1000

/-- The time left of a live entry, as `PTTL` computes it. -/
theorem pttlOf_left {e : Entry} (halive : alive now e = true) (hne : e.expiresAtMs ≠ 0)
    (hfar : e.expiresAtMs.toNat ≤ now.toNat + farthest) :
    now.toNat < e.expiresAtMs.toNat ∧
      (pttlOf now (some e)).toInt = e.expiresAtMs.toNat - now.toNat := by
  have hfuture : ¬ e.expiresAtMs ≤ now := by
    simpa [alive, Entry.isExpired, hne] using halive
  have hlt : now.toNat < e.expiresAtMs.toNat :=
    UInt64.lt_iff_toNat_lt.mp (UInt64.not_le.mp hfuture)
  have hsub : (e.expiresAtMs - now).toNat = e.expiresAtMs.toNat - now.toNat :=
    UInt64.toNat_sub_of_le _ _ (UInt64.le_iff_toNat_le.mpr hlt.le)
  unfold farthest at hfar
  refine ⟨hlt, ?_⟩
  -- below 2 ^ 63 the cast keeps the number
  rw [pttlOf, if_neg hne, if_neg hfuture, ← UInt64.ofNat_toNat (x := e.expiresAtMs - now),
    UInt64.toInt64_ofNat', Int64.toInt_ofNat_of_lt (by omega), hsub]
  omega

/-- Adding 999 to a time left that is at most `farthest`. -/
theorem inRange_add_999 {n : Int64} : InRange (n.toInt + 999) ↔ n.toInt ≤ farthest := by
  have hlow := n.le_toInt
  unfold InRange farthest
  omega

/-- `TTL` has a result if the time left is at most `farthest`. -/
theorem ttlAt_eq (h : now ≤ now')
    (hfar : (pttlOf now' (findLive now' s.data key)).toInt ≤ farthest) :
    s.ttlAt now now' key = some (ttlOf now' (findLive now' s.data key)) := by
  rw [Store.ttlAt, ttlOf, pttlAt_eq h]
  split_ifs
  · rfl
  · rw [checked_add_999 (inRange_add_999.mpr hfar), Option.map_some]

/-- Rounding up to seconds. -/
theorem toInt_seconds {n : Int64} (hpos : 0 < n.toInt) (hfar : n.toInt ≤ farthest) :
    ((n + 999) / 1000).toInt = (n.toInt + 999) / 1000 := by
  have h1000 : (1000 : Int64).toInt = 1000 := by decide
  have hsum : (n + 999).toInt = n.toInt + 999 :=
    toInt_of_checked (checked_add_999 (inRange_add_999.mpr hfar))
  rw [Int64.toInt_div_of_ne_right _ _ (by decide), hsum, h1000,
    Int.tdiv_eq_ediv_of_nonneg (by omega)]

/-- The reports on a live entry whose deadline is not too far away. -/
theorem reports_pttlOf (halive : ∀ e, o = some e → alive now e = true)
    (hfar : ∀ e, o = some e → e.expiresAtMs.toNat ≤ now.toNat + farthest) :
    Reports exactly now o (pttlOf now o) := by
  refine reports_of (fun ho => by rw [ho]; rfl) (fun e ho hzero => ?_) fun e ho hne => ?_
  · rw [ho, pttlOf, if_pos hzero]
  · obtain ⟨hlt, hleft⟩ := pttlOf_left (halive e ho) hne (hfar e ho)
    rw [ho, exactly, hleft]
    omega

theorem reports_ttlOf (halive : ∀ e, o = some e → alive now e = true)
    (hfar : ∀ e, o = some e → e.expiresAtMs.toNat ≤ now.toNat + farthest) :
    Reports roundedUp now o (ttlOf now o) := by
  refine reports_of (fun ho => by rw [ho]; rfl) (fun e ho hzero => ?_) fun e ho hne => ?_
  · rw [ho, ttlOf, pttlOf, if_pos hzero]
    rfl
  · obtain ⟨hlt, hleft⟩ := pttlOf_left (halive e ho) hne (hfar e ho)
    have hfar := hfar e ho
    have hpos : ¬ pttlOf now (some e) ≤ 0 := by
      rw [Int64.le_iff_toInt_le, hleft, Int64.toInt_zero]
      omega
    rw [ho, ttlOf, if_neg hpos, toInt_seconds (by omega) (by omega), hleft]
    -- rounding up is the least number of seconds that covers what is left
    have hcovers : (e.expiresAtMs.toNat - now.toNat : Int) ≤
        (e.expiresAtMs.toNat - now.toNat + 999 : Int) / 1000 * 1000 := by omega
    refine ⟨by omega, hcovers, fun m hm => ?_⟩
    have hm : (e.expiresAtMs.toNat - now.toNat : Int) ≤ m * 1000 := hm
    omega

/-- What `PTTL` computes is at most `farthest`, if the deadline is at most so far away. -/
theorem pttlOf_le (halive : ∀ e, o = some e → alive now e = true)
    (hfar : ∀ e, o = some e → e.expiresAtMs.toNat ≤ now.toNat + farthest) :
    (pttlOf now o).toInt ≤ farthest := by
  cases o with
  | none => exact (by decide : (-2 : Int64).toInt ≤ farthest)
  | some e =>
    by_cases hzero : e.expiresAtMs = 0
    · rw [pttlOf, if_pos hzero]
      exact (by decide : (-1 : Int64).toInt ≤ farthest)
    · obtain ⟨-, hleft⟩ := pttlOf_left (halive e rfl) hzero (hfar e rfl)
      have hfar := hfar e rfl
      omega

/-- **The reports on a key are true exactly if its deadline is not too far away.** -/
theorem truthful_iff (h : now ≤ now') : Truthful now now' s key ↔
    ∀ e, findLive now' s.data key = some e → e.expiresAtMs.toNat ≤ now'.toNat + farthest := by
  constructor
  · intro htrue e hlive
    by_cases hzero : e.expiresAtMs = 0
    · rw [hzero, UInt64.toNat_zero]
      exact Nat.zero_le _
    · -- a sum that is there is a signed number
      obtain ⟨hpos, hleft⟩ := htrue.pttl.2.2 e hlive hzero
      have hleft : (s.pttlAt now now' key).toInt = e.expiresAtMs.toNat - now'.toNat := hleft
      have hsign : ¬ s.pttlAt now now' key ≤ 0 := by
        rw [Int64.le_iff_toInt_le, Int64.toInt_zero]
        omega
      obtain ⟨n, hn, -⟩ := htrue.ttl
      rw [Store.ttlAt, if_neg hsign] at hn
      obtain ⟨sum, hsum, -⟩ := Option.map_eq_some_iff.mp hn
      have hrange := inRange_toInt sum
      rw [toInt_of_checked hsum, inRange_add_999] at hrange
      omega
  · intro hfar
    have halive : ∀ e, findLive now' s.data key = some e → alive now' e = true :=
      fun e hlive => alive_of_findLive hlive
    refine ⟨?_, _, ttlAt_eq h (pttlOf_le halive hfar), reports_ttlOf halive hfar⟩
    rw [pttlAt_eq h]
    exact reports_pttlOf halive hfar

/-! ## The deadlines that commands store -/

/-- The deadline that `EXPIRE` and `PEXPIRE` store: if the amount is one, and the key live. -/
def timerDeadline? (present : Bool) (due : UInt64 → UInt64) : List Bytes → Option UInt64
  | [amount] => if present then (parseU64 amount).map due else none
  | _ => none

/-- The deadline that a command stores under its key, in the store it finds: `EXPIRE` and
`PEXPIRE` do if the key is live, and `SET` does unless `NX` or `XX` forbids it. What is refused
stores nothing. -/
def storedDeadline? (now : UInt64) (cmd : Command) (s : Store) : Option UInt64 :=
  match cmd.args with
  | [] => none
  | key :: rest =>
    let present := (findLive now s.data key).isSome
    if cmd.name = ascii "EXPIRE" then timerDeadline? present (fun n => now + n * 1000) rest
    else if cmd.name = ascii "PEXPIRE" then timerDeadline? present (fun n => now + n) rest
    else if cmd.name = ascii "SET" then
      match rest with
      | [] => none
      | _ :: options =>
        match setOptions now options {} with
        | .error _ => none
        | .ok opts =>
          if (opts.nx && present) || (opts.xx && !present) then none else some opts.expiresAt
    else none

/-- The deadline that a write stores, given the live entry. -/
def Update.storedDeadline? : Update → Option Entry → Option UInt64
  | set _ opts, o =>
    if (opts.nx && o.isSome) || (opts.xx && !o.isSome) then none else some opts.expiresAt
  | expire deadline, o => o.map fun _ => deadline
  | _, _ => none

/-- What a parser of one unsigned number accepts. -/
theorem unsigned_parsed {f : UInt64 → Update} {rest : List Bytes} {u : Update}
    (h : oneArg (unsigned f) rest = .ok u) :
    ∃ arg n, rest = [arg] ∧ parseU64 arg = some n ∧ u = f n := by
  match rest with
  | [] => cases h
  | _ :: _ :: _ => cases h
  | [arg] =>
    simp only [oneArg, unsigned] at h
    cases hparse : parseU64 arg with
    | none =>
      rw [hparse] at h
      cases h
    | some n =>
      rw [hparse] at h
      exact ⟨arg, n, rfl, hparse, (Except.ok.inj h).symm⟩

/-- A command stores the deadline that its write does. -/
theorem storedDeadline?_update {name : Bytes} {rest : List Bytes}
    {parse : UInt64 → List Bytes → Except Reply Update} {u : Update}
    (hrow : specTable.lookup name = some (.update parse)) (hparse : parse now rest = .ok u) :
    storedDeadline? now ⟨name, key :: rest⟩ s =
      u.storedDeadline? (findLive now s.data key) := by
  by_cases hexpire : name = ascii "EXPIRE"
  · subst hexpire
    obtain rfl := Spec.update.inj (Option.some.inj (hrow.symm.trans rfl) : _ = Spec.expire)
    obtain ⟨arg, n, rfl, hn, rfl⟩ := unsigned_parsed hparse
    simp only [storedDeadline?, timerDeadline?, if_pos, hn]
    cases findLive now s.data key <;> rfl
  by_cases hpexpire : name = ascii "PEXPIRE"
  · subst hpexpire
    obtain rfl := Spec.update.inj (Option.some.inj (hrow.symm.trans rfl) : _ = Spec.pexpire)
    obtain ⟨arg, n, rfl, hn, rfl⟩ := unsigned_parsed hparse
    simp only [storedDeadline?, timerDeadline?, if_neg hexpire, if_pos, hn]
    cases findLive now s.data key <;> rfl
  by_cases hset : name = ascii "SET"
  · subst hset
    obtain rfl := Spec.update.inj (Option.some.inj (hrow.symm.trans rfl) : _ = Spec.set)
    cases rest with
    | nil => cases hparse
    | cons value options =>
      simp only at hparse
      simp only [storedDeadline?, if_neg hexpire, if_neg hpexpire, if_pos]
      cases hopts : setOptions now options {} with
      | error error =>
        rw [hopts] at hparse
        cases error <;> cases hparse
      | ok opts =>
        rw [hopts] at hparse
        cases hparse
        rfl
  -- any other write
  have hserves : u.Serves name := specTable_serves _ (mem_of_lookup hrow) now rest u hparse
  simp only [storedDeadline?, if_neg hexpire, if_neg hpexpire, if_neg hset]
  cases u with
  | set value opts => exact absurd (List.mem_singleton.mp hserves) hset
  | expire deadline => exact ((List.mem_pair.mp hserves).elim hexpire hpexpire).elim
  | count | append | getset | persist | add | remove | pop => rfl

/-- The entry after a write is the one from before, or it has the deadline from before, or none,
or the one that is stored. -/
theorem Update.written_deadline (u : Update) {e' : Entry} (h : (u.run o).2.getD o = some e') :
    o = some e' ∨ e'.expiresAtMs = deadlineOf o ∨ e'.expiresAtMs = 0 ∨
      u.storedDeadline? o = some e'.expiresAtMs := by
  rcases u.deadline_after h with hdate | hkept
  swap
  · exact .inl hkept
  -- three updates set a deadline; the others keep one or clear it
  cases u with
  | count | append | add | remove | pop => exact .inr (.inl hdate)
  | getset | persist => exact .inr (.inr (.inl hdate))
  | expire deadline =>
    cases o with
    | none => cases h
    | some e => exact .inr (.inr (.inr (congrArg some hdate.symm)))
  | set value opts =>
    rw [run] at h
    split_ifs at h with hblocked
    · exact .inl h
    · refine .inr (.inr (.inr ?_))
      rw [storedDeadline?, if_neg hblocked, hdate]
      rfl

/-- The deadline that a write stores is that of the entry it leaves. -/
theorem Update.stores {u : Update} {d : UInt64} (h : u.storedDeadline? o = some d) :
    ∃ e', (u.run o).2 = some (some e') ∧ e'.expiresAtMs = d := by
  cases u with
  | count | append | add | remove | pop | getset | persist => cases h
  | expire deadline =>
    cases o with
    | none => cases h
    | some e => exact ⟨_, rfl, Option.some.inj h⟩
  | set value opts =>
    rw [storedDeadline?] at h
    split_ifs at h with hblocked
    rw [run, if_neg hblocked]
    exact ⟨_, rfl, Option.some.inj h⟩

/-! ## One step -/

/-- A command writes the deadlines it finds, and those that its writes leave. -/
theorem Spec.Asks.allowed {allowed : UInt64 → Prop} (hnone : allowed 0) {spec : Spec}
    {args : List Bytes} {p : Program Bytes Entry Reply}
    (hset : ∀ parse key rest u, spec = .update parse → args = key :: rest →
      parse now rest = .ok u → ∀ old, allowed old → allowed (u.deadline old))
    (h : spec.Asks now args p) : p.Keeps fun e => allowed e.expiresAtMs := by
  cases h with
  | reply => trivial
  | look hparse => exact fun _ _ => trivial
  | survey => exact fun _ => trivial
  | flush => trivial
  | gather => exact Program.keeps_reads fun _ => trivial
  | move src dst => exact Program.keeps_move src dst _ _
  | delete =>
    refine Program.keeps_cells (fun u hu o _ e he => ?_) _
    obtain ⟨key, -, rfl⟩ := List.mem_map.mp hu
    cases o <;> cases he
  | assign =>
    refine Program.keeps_cells (fun u hu o _ e he => ?_) _
    obtain ⟨pair, -, rfl⟩ := List.mem_map.mp hu
    cases he
    exact hnone
  | @update parse key rest u hparse =>
    refine Program.keeps_step fun o ho o' ho' e' he' => ?_
    have hold : allowed (deadlineOf o) := by
      cases o with
      | none => exact hnone
      | some e => exact ho e rfl
    have hafter : (u.run o).2.getD o = some e' := by
      rw [Option.mem_def.mp ho']
      exact he'
    rcases u.deadline_after hafter with hdate | hkept
    · rw [hdate]
      exact hset parse key rest u rfl rfl hparse _ hold
    · exact ho e' hkept

section allowed

variable {allowed : UInt64 → Prop}

/-- A write that stores an allowed deadline, if any, leaves allowed deadlines. -/
theorem update_allowed (hnone : allowed 0) {u : Update}
    (hset : ∀ d, u.storedDeadline? (findLive now s.data key) = some d → allowed d)
    (h : ∀ key, ∀ e ∈ s.data.find? key, allowed e.expiresAtMs) :
    ∀ k, ∀ e ∈ (s.exec now (.step key u.run)).2.data.find? k, allowed e.expiresAtMs := by
  intro k e he
  have hafter : (s.exec now (.step key u.run)).2.data =
      (u.run (findLive now s.data key)).2.elim s.data (s.data.put key) := by
    rw [Store.exec, Program.run_step, ← findLive_eq]
  have hlive : ∀ e ∈ findLive now s.data key, allowed e.expiresAtMs := by
    rw [findLive_eq]
    exact fun e he => h key e (Option.mem_filter_iff.mp he).1
  rw [hafter] at he
  cases hwrite : (u.run (findLive now s.data key)).2 with
  | none =>
    rw [hwrite] at he
    exact h k e he
  | some o' =>
    rw [hwrite, Option.elim_some, FlatMap.find?_put] at he
    split_ifs at he with hk
    swap
    · exact h k e he
    have hleft : (u.run (findLive now s.data key)).2.getD (findLive now s.data key) = some e := by
      rw [hwrite]
      exact he
    -- the entry under the key is old, keeps its deadline, has none or has the one stored
    rcases u.written_deadline hleft with hkept | hdate | hzero | hstored
    · exact hlive e hkept
    · rw [hdate]
      cases hold : findLive now s.data key with
      | none => exact hnone
      | some old => exact hlive old hold
    · rw [hzero]
      exact hnone
    · exact hset _ hstored

/-- Deadlines that are allowed stay allowed, if the command stores only such. -/
theorem dispatch_allowed (hnone : allowed 0) {cmd : Command}
    (hset : ∀ d, storedDeadline? now cmd s = some d → allowed d)
    (h : ∀ key, ∀ e ∈ s.data.find? key, allowed e.expiresAtMs) :
    ∀ key, ∀ e ∈ (dispatch now cmd s).2.data.find? key, allowed e.expiresAtMs := by
  cases hrow : specTable.lookup cmd.name with
  | none =>
    rw [dispatch_unknown hrow]
    exact h
  | some spec =>
    have hasks := spec.asks now cmd.args
    rw [dispatch_eq hrow]
    generalize hp : spec.program now cmd.args = p at hasks
    show ∀ key, ∀ e ∈ (s.exec now _).2.data.find? key, _
    rw [hp]
    cases spec with
    | update parse =>
      obtain ⟨name, args⟩ := cmd
      cases hasks with
      | reply => exact h
      | @update _ key rest u hparse =>
        rw [storedDeadline?_update hrow hparse] at hset
        exact update_allowed hnone hset h
    -- these write no deadline of their own
    | talk | look | gather | delete | assign | move | survey | flush =>
      refine Program.run_keeps p (hasks.allowed hnone ?_) h
      rintro parse key rest u ⟨⟩

end allowed

/-- The argument of a command that stores a deadline so can be read. -/
theorem timerDeadline?_parsed {present : Bool} {due : UInt64 → UInt64} {rest : List Bytes}
    {d : UInt64} (h : timerDeadline? present due rest = some d) :
    ∃ u, oneArg (unsigned fun n => Update.expire (due n)) rest = .ok u := by
  rcases rest with _ | ⟨arg, _ | ⟨extra, rest⟩⟩
  · cases h
  · rw [timerDeadline?] at h
    split_ifs at h
    obtain ⟨n, hn, -⟩ := Option.map_eq_some_iff.mp h
    refine ⟨.expire (due n), ?_⟩
    simp only [oneArg, unsigned, hn]
  · cases h

/-- A command that stores a deadline writes its first argument. -/
theorem storedDeadline?_parsed {cmd : Command} {d : UInt64}
    (h : storedDeadline? now cmd s = some d) :
    ∃ key rest parse u, cmd.args = key :: rest ∧
      specTable.lookup cmd.name = some (.update parse) ∧ parse now rest = .ok u := by
  obtain ⟨name, args⟩ := cmd
  rcases args with _ | ⟨key, rest⟩
  · cases h
  simp only [storedDeadline?] at h
  by_cases hexpire : name = ascii "EXPIRE"
  · rw [if_pos hexpire] at h
    obtain ⟨u, hu⟩ := timerDeadline?_parsed h
    subst hexpire
    exact ⟨key, rest, _, u, rfl, rfl, hu⟩
  by_cases hpexpire : name = ascii "PEXPIRE"
  · rw [if_neg hexpire, if_pos hpexpire] at h
    obtain ⟨u, hu⟩ := timerDeadline?_parsed h
    subst hpexpire
    exact ⟨key, rest, _, u, rfl, rfl, hu⟩
  rw [if_neg hexpire, if_neg hpexpire] at h
  by_cases hset : name = ascii "SET"
  swap
  · rw [if_neg hset] at h
    cases h
  rw [if_pos hset] at h
  subst hset
  cases rest with
  | nil => cases h
  | cons value options =>
    cases hopts : setOptions now options {} with
    | error error =>
      simp only [hopts] at h
      cases h
    | ok opts =>
      refine ⟨key, value :: options, _, .set value opts, rfl, rfl, ?_⟩
      simp only [hopts]

/-- **The deadline that a command stores** is there afterwards. -/
theorem dispatch_stores {cmd : Command} {d : UInt64} (h : storedDeadline? now cmd s = some d) :
    ∃ key e, (dispatch now cmd s).2.data.find? key = some e ∧ e.expiresAtMs = d := by
  obtain ⟨key, rest, parse, u, hargs, hrow, hparse⟩ := storedDeadline?_parsed h
  obtain ⟨name, args⟩ := cmd
  obtain rfl : args = key :: rest := hargs
  rw [storedDeadline?_update hrow hparse] at h
  obtain ⟨e, hwrite, he⟩ := Update.stores h
  refine ⟨key, e, ?_, he⟩
  rw [dispatch_update hrow hparse, served, hwrite]
  exact FlatMap.find?_put_self _ _ _

/-! ## Runs -/

/-- Each deadline that a command of the run stores is at most `farthest` after the latest clock
reading up to then: its own, if the clock does not run backwards. -/
def WithinReach : List (UInt64 × Command) → UInt64 → Store → Prop
  | [], _, _ => True
  | (now, cmd) :: rest, latest, s =>
    (∀ d ∈ storedDeadline? now cmd s, d.toNat ≤ (max latest now).toNat + farthest) ∧
      WithinReach rest (max latest now) (dispatch now cmd s).2

instance WithinReach.decidable : ∀ (log : List (UInt64 × Command)) (latest : UInt64) (s : Store),
    Decidable (WithinReach log latest s)
  | [], _, _ => .isTrue trivial
  | (now, cmd) :: rest, latest, s =>
    @instDecidableAnd _ _ (Option.decidableForallMem _)
      (WithinReach.decidable rest (max latest now) (dispatch now cmd s).2)

/-- One command after a run. -/
theorem execAll_concat (log : List (UInt64 × Command)) (cmd : Command) :
    ∀ s : Store, execAll (log ++ [(now, cmd)]) s = (dispatch now cmd (execAll log s)).2 := by
  induction log with
  | nil => exact fun _ => rfl
  | cons step rest ih => exact fun s => ih _

/-- The later of two clock readings. -/
theorem max_eq (now now' : UInt64) : max now now' = if now ≤ now' then now' else now := rfl

theorem le_max_clock (now now' : UInt64) : now ≤ max now now' ∧ now' ≤ max now now' := by
  rw [max_eq]
  split_ifs with hle
  · exact ⟨hle, UInt64.le_refl now'⟩
  · exact ⟨UInt64.le_refl now, UInt64.le_of_lt (UInt64.not_le.mp hle)⟩

theorem max_clock_le {t : UInt64} (h : now ≤ t) (h' : now' ≤ t) : max now now' ≤ t := by
  rw [max_eq]
  split_ifs
  · exact h'
  · exact h

/-- No deadline in the store is farther away than `farthest`. -/
def Store.Near (now : UInt64) (s : Store) : Prop :=
  ∀ key, ∀ e ∈ s.data.find? key, e.expiresAtMs.toNat ≤ now.toNat + farthest

/-- In a run within reach, no deadline is ever too far away. -/
theorem WithinReach.near {before after : List (UInt64 × Command)} :
    ∀ {latest : UInt64} {s : Store}, WithinReach (before ++ after) latest s → latest ≤ now →
      (∀ step ∈ before, step.1 ≤ now) → s.Near now → (execAll before s).Near now := by
  induction before with
  | nil => exact fun _ _ _ h => h
  | cons step rest ih =>
    obtain ⟨t, cmd⟩ := step
    rintro latest s ⟨hstored, hreach⟩ hlatest hbefore hnear
    obtain ⟨ht, hrest⟩ := List.forall_mem_cons.mp hbefore
    have hmax : max latest t ≤ now := max_clock_le hlatest ht
    refine ih hreach hmax hrest ?_
    refine @dispatch_allowed t s (fun d => d.toNat ≤ now.toNat + farthest) (Nat.zero_le _) cmd
      (fun d hd => ?_) hnear
    exact (hstored d hd).trans (Nat.add_le_add_right (UInt64.le_iff_toNat_le.mp hmax) _)

/-- A deadline that is reported truly is not too far away, or over. -/
theorem near_of_truthful {e : Entry} (hfind : s.data.find? key = some e)
    (htrue : Truthful now now s key) : e.expiresAtMs.toNat ≤ now.toNat + farthest := by
  cases hexpired : e.isExpired now with
  | false =>
    refine (truthful_iff (UInt64.le_refl now)).mp htrue e ?_
    rw [findLive, hfind]
    simp only [hexpired]
    rfl
  | true =>
    have hpast : e.expiresAtMs ≤ now := by
      simp only [Entry.isExpired, Bool.and_eq_true, decide_eq_true_eq] at hexpired
      exact hexpired.2
    exact (UInt64.le_iff_toNat_le.mp hpast).trans (Nat.le_add_right _ _)

/-- If all reports are true up to the last command, the deadlines that are stored from there on,
one step at a time, are within reach. -/
theorem withinReach_of_truthful {clock : UInt64 → Prop} {log : List (UInt64 × Command)}
    (hlog : ∀ step ∈ log, clock step.1)
    (htrue : ∀ before after, log = before ++ after → ∀ now, clock now →
      (∀ step ∈ before, step.1 ≤ now) →
      ∀ key, Truthful now now (execAll before Store.empty) key)
    (rest : List (UInt64 × Command)) :
    ∀ {done : List (UInt64 × Command)} {latest : UInt64}, log = done ++ rest →
      (∀ step ∈ done, step.1 ≤ latest) → (latest = 0 ∨ clock latest) →
      WithinReach rest latest (execAll done Store.empty) := by
  induction rest with
  | nil => exact fun _ _ _ => trivial
  | cons step rest ih =>
    obtain ⟨t, cmd⟩ := step
    intro done latest hsplit hdone hlatest
    have hsplit' : log = (done ++ [(t, cmd)]) ++ rest := by
      rw [hsplit, List.append_assoc, List.singleton_append]
    have hafter : execAll (done ++ [(t, cmd)]) Store.empty =
        (dispatch t cmd (execAll done Store.empty)).2 := execAll_concat done cmd _
    have hclock : clock (max latest t) := by
      rw [max_eq]
      split_ifs with hle
      · exact hlog (t, cmd) (hsplit ▸ List.mem_append_right done List.mem_cons_self)
      · exact hlatest.resolve_left fun hzero => hle (by rw [hzero]; exact UInt64.zero_le)
    have hdone' : ∀ step ∈ done ++ [(t, cmd)], step.1 ≤ max latest t := by
      intro step hstep
      obtain ⟨hle, hle'⟩ := le_max_clock latest t
      rcases List.mem_append.mp hstep with hbefore | hlast
      · exact UInt64.le_trans (hdone step hbefore) hle
      · obtain rfl := List.mem_singleton.mp hlast
        exact hle'
    refine ⟨fun d hd => ?_, ?_⟩
    · obtain ⟨key, e, hfind, rfl⟩ := dispatch_stores hd
      rw [← hafter] at hfind
      exact near_of_truthful hfind (htrue _ _ hsplit' _ hclock hdone' key)
    · rw [← hafter]
      exact ih hsplit' hdone' (.inr hclock)

/-- **`TTL` and `PTTL` report the truth** throughout a run, whatever its clock readings and at
every later time, exactly if no command of the run stores a deadline that is farther away than
`farthest`. The clock readings may be of any kind, if those of the run are. -/
theorem ttl_truthful {clock : UInt64 → Prop} {log : List (UInt64 × Command)}
    (hlog : ∀ step ∈ log, clock step.1) :
    WithinReach log 0 Store.empty ↔
      ∀ before after, log = before ++ after →
        ∀ now now', clock now → clock now' → (∀ step ∈ before, step.1 ≤ now) → now ≤ now' →
          ∀ key, let s := execAll before Store.empty
            Truthful now now' s key ∧
            (dispatch now ⟨ascii "PTTL", [key]⟩ s).1 = respInteger (s.pttlAt now now key) ∧
            ∃ n, s.ttlAt now now key = some n ∧
              (dispatch now ⟨ascii "TTL", [key]⟩ s).1 = respInteger n := by
  constructor
  · rintro hreach before after rfl now now' - - hbefore hle key s
    have hempty : Store.empty.Near now := fun _ _ he => by cases he
    -- no deadline is farther away than the clock can count to, step after step
    have hnear : s.Near now := hreach.near UInt64.zero_le hbefore hempty
    have hlater {t : UInt64} (ht : now ≤ t) : Truthful now t s key := by
      refine (truthful_iff ht).mpr fun e hlive => ?_
      exact (hnear key e (find?_of_findLive hlive)).trans
        (Nat.add_le_add_right (UInt64.le_iff_toNat_le.mp ht) _)
    obtain ⟨n, hn, -⟩ := (hlater (UInt64.le_refl now)).ttl
    exact ⟨hlater hle, rfl, n, hn, congrArg respInteger (ttl_of_ttlAt hn)⟩
  -- a step that stored one farther away would be seen by PTTL right after it
  · intro htrue
    refine withinReach_of_truthful hlog (fun before after hsplit now hnow hbefore key => ?_) log
      rfl (fun step hstep => absurd hstep List.not_mem_nil) (.inl rfl)
    exact (htrue before after hsplit now now hnow hnow hbefore (UInt64.le_refl now) key).1

/-- A key with ten seconds left, half of one later; one that is renamed; and commands that name a
deadline far away and store none. -/
theorem ttl_truthful_expire :
    let log : List (UInt64 × Command) := [
      (1, ⟨ascii "SET", [ascii "k", ascii "v", ascii "px", ascii "500"]⟩),
      (2, ⟨ascii "EXPIRE", [ascii "k", ascii "10"]⟩),
      (2, ⟨ascii "PEXPIRE", [ascii "missing", ascii "9223372036854775808"]⟩),
      (3, ⟨ascii "SET", [ascii "k", ascii "w", ascii "NX", ascii "PX",
        ascii "9223372036854775808"]⟩),
      (3, ⟨ascii "RENAME", [ascii "k", ascii "l"]⟩)]
    Truthful 502 503 (execAll log Store.empty) (ascii "l") := by
  intro log
  let clock : UInt64 → Prop := fun t => 0 < t.toNat ∧ t.toNat < 2 ^ 63
  have hlog : ∀ step ∈ log, clock step.1 := by decide
  have hreach : WithinReach log 0 Store.empty := by decide
  exact ((ttl_truthful hlog).mp hreach log [] (List.append_nil log).symm 502 503 (by decide)
    (by decide) (by decide) (by decide) (ascii "l")).1

/-- A deadline `2 ^ 63` milliseconds away is reported as a negative number; and one a millisecond
nearer has no `TTL`. -/
theorem not_truthful :
    let set : Command := ⟨ascii "SET", [ascii "k", ascii "v"]⟩
    let far : Command := ⟨ascii "PEXPIRE", [ascii "k", ascii "9223372036854775808"]⟩
    let near : Command := ⟨ascii "PEXPIRE", [ascii "k", ascii "9223372036854775807"]⟩
    let s := execAll [(1, set), (1, far)] Store.empty
    let s' := execAll [(1, set), (1, near)] Store.empty
    ((findLive 1 s.data (ascii "k")).isSome ∧
      (dispatch 1 ⟨ascii "PTTL", [ascii "k"]⟩ s).1 = respInteger (-9223372036854775808) ∧
      ¬ Truthful 1 1 s (ascii "k")) ∧
    ((findLive 1 s'.data (ascii "k")).isSome ∧ s'.ttlAt 1 1 (ascii "k") = none) := by
  intro set far near s s'
  have hlive : findLive 1 s.data (ascii "k") =
      some ⟨.string (ascii "v"), 9223372036854775809⟩ := by decide
  refine ⟨⟨by rw [hlive]; rfl, by decide, fun htrue => ?_⟩, by decide, by decide⟩
  exact absurd ((truthful_iff (UInt64.le_refl 1)).mp htrue _ hlive) (by decide)

end Redix
