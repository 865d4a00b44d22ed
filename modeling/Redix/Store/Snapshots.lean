import Redix.Base.Timed
import Redix.Store.Operations

/-!
# Reads of many keys, with every clock reading (store.cpp)

`is_expired` reads the clock itself, so a read of many keys judges each entry at a time
of its own; elsewhere a command has one clock reading. Here the reads of many keys are
modelled with one reading for each entry that has a deadline.

- `judge`: `is_expired` as a question to the clock;
- `existsTimed`, `mgetTimed`, ...: the reads. At one instant they are the ones of
  `Operations` (`resultAt_existsLoop`, ...);
- `mget_not_snapshot`: a repeated key may be seen live and then not;
- `multi_key_reads_snapshot`: exactly when a read judges all entries as at one instant.
-/

namespace Redix

/-- The order of clock readings. -/
local instance instLinearOrderUInt64 : LinearOrder UInt64 where
  le_refl := UInt64.le_refl
  le_trans _ _ _ := UInt64.le_trans
  le_antisymm _ _ := UInt64.le_antisymm
  le_total := UInt64.le_total
  lt_iff_le_not_ge a b := by
    rw [UInt64.not_le]
    exact ⟨fun h => ⟨UInt64.le_of_lt h, h⟩, fun h => h.2⟩
  toDecidableLE := inferInstance
  toDecidableEq := inferInstance
  toDecidableLT := inferInstance

variable {ρ : Type}

/-- `Entry::is_expired`: the clock is not read if there is no deadline. -/
def Entry.judge (e : Entry) (next : Bool → Timed UInt64 ρ) : Timed UInt64 ρ :=
  if e.expiresAtMs = 0 then next false else .ask e.expiresAtMs next

/-- `find_live` -/
def findLiveTimed (data : DataMap) (key : Bytes) (next : Option Entry → Timed UInt64 ρ) :
    Timed UInt64 ρ :=
  match data.find? key with
  | none => next none
  | some e => e.judge fun expired => next (if expired then none else some e)

/-- At one instant, the clock answers as the entry is judged there. -/
theorem resultAt_judge (t : UInt64) (e : Entry) (next : Bool → Timed UInt64 ρ) :
    (e.judge next).resultAt t = (next (e.isExpired t)).resultAt t := by
  rw [Entry.judge, Entry.isExpired]
  by_cases h : e.expiresAtMs = 0
  · rw [if_pos h, h]
    rfl
  · rw [if_neg h, decide_eq_true h, Bool.true_and]
    rfl

/-- At one instant, `find_live` finds what is live there. -/
theorem resultAt_findLiveTimed (t : UInt64) (data : DataMap) (key : Bytes)
    (next : Option Entry → Timed UInt64 ρ) :
    (findLiveTimed data key next).resultAt t = (next (findLive t data key)).resultAt t := by
  rw [findLiveTimed, findLive]
  cases data.find? key with
  | none => rfl
  | some e => exact resultAt_judge t e _

namespace Store

/-! ## The reads -/

/-- The loop of `exists`. -/
def existsLoop (data : DataMap) : List Bytes → Int → Timed UInt64 Int
  | [], count => .done count
  | key :: rest, count =>
    findLiveTimed data key fun it => existsLoop data rest (if it.isSome then count + 1 else count)

/-- `Store::exists` -/
def existsTimed (s : Store) (keys : List Bytes) : Timed UInt64 Int := existsLoop s.data keys 0

/-- The loop of `mget`. -/
def mgetLoop (data : DataMap) :
    List Bytes → List (Option Bytes) → Timed UInt64 (List (Option Bytes))
  | [], values => .done values
  | key :: rest, values =>
    findLiveTimed data key fun it => mgetLoop data rest (values ++ [stringOf it])

/-- `Store::mget` -/
def mgetTimed (s : Store) (keys : List Bytes) : Timed UInt64 (List (Option Bytes)) :=
  mgetLoop s.data keys []

/-- The loop of `sunion`. -/
def sunionLoop (data : DataMap) : List Bytes → FlatMap Bytes Unit → Timed UInt64 (List Bytes)
  | [], result => .done result.keys
  | key :: rest, result =>
    findLiveTimed data key fun
      | none => sunionLoop data rest result
      | some e =>
        match setValue.get? e.value with
        | none => sunionLoop data rest result
        | some set =>
          sunionLoop data rest
            (set.keys.foldl (fun result member => result.insert member ()) result)

/-- `Store::sunion` -/
def sunionTimed (s : Store) (keys : List Bytes) : Timed UInt64 (List Bytes) :=
  sunionLoop s.data keys FlatMap.empty

/-- The loop of `sinter`, which returns early; `result` is `none` until the first set
initializes it. -/
def sinterLoop (data : DataMap) :
    List Bytes → Option (FlatMap Bytes Unit) → Timed UInt64 (List Bytes)
  | [], result => .done (result.getD FlatMap.empty).keys
  | key :: rest, result =>
    findLiveTimed data key fun
      | none => .done []
      | some e =>
        match setValue.get? e.value with
        | none => .done []
        | some set =>
          match result with
          | none => sinterLoop data rest (some set)
          | some result =>
            let next := result.filter fun member _ => set.contains member
            if next.isEmpty then .done [] else sinterLoop data rest (some next)

/-- `Store::sinter` -/
def sinterTimed (s : Store) (keys : List Bytes) : Timed UInt64 (List Bytes) :=
  if keys = [] then .done [] else sinterLoop s.data keys none

/-- The loop of `dbsize`. -/
def dbsizeLoop : List (Bytes × Entry) → Nat → Timed UInt64 Nat
  | [], count => .done count
  | e :: rest, count =>
    e.2.judge fun expired => dbsizeLoop rest (if !expired then count + 1 else count)

/-- `Store::dbsize` -/
def dbsizeTimed (s : Store) : Timed UInt64 Nat := dbsizeLoop s.data.entries 0

/-- The loop of `keys`. -/
def keysLoop (pattern : Bytes) : List (Bytes × Entry) → List Bytes → Timed UInt64 (List Bytes)
  | [], out => .done out
  | e :: rest, out =>
    e.2.judge fun expired =>
      if expired then keysLoop pattern rest out
      else if globMatch pattern e.1 then keysLoop pattern rest (out ++ [e.1])
      else keysLoop pattern rest out

/-- `Store::keys` -/
def keysTimed (s : Store) (pattern : Bytes) : Timed UInt64 (List Bytes) :=
  keysLoop pattern s.data.entries []

/-! ## At one instant -/

section instant

variable (t : UInt64) (data : DataMap)

/-- `exists` counts the keys that are live at the instant, one after another. -/
theorem resultAt_existsLoop (keys : List Bytes) : ∀ count : Int,
    (existsLoop data keys count).resultAt t =
      count + ((keys.map (findLive t data)).countP Option.isSome : Nat) := by
  induction keys with
  | nil => exact fun count => (Int.add_zero count).symm
  | cons key rest ih =>
    intro count
    rw [existsLoop, resultAt_findLiveTimed, ih, List.map_cons, List.countP_cons]
    cases findLive t data key with
    | none => rfl
    | some e =>
      show count + 1 + _ = count + ((_ + 1 : Nat) : Int)
      rw [Nat.cast_add, Int.add_assoc, Int.add_comm 1]
      rfl

/-- `mget` has the strings of the keys that are live at the instant. -/
theorem resultAt_mgetLoop (keys : List Bytes) : ∀ values,
    (mgetLoop data keys values).resultAt t =
      values ++ (keys.map (findLive t data)).map stringOf := by
  induction keys with
  | nil => exact fun values => (List.append_nil values).symm
  | cons key rest ih =>
    intro values
    rw [mgetLoop, resultAt_findLiveTimed, ih, List.append_assoc]
    rfl

/-- `sunion` joins the sets that are live at the instant. -/
theorem resultAt_sunionLoop (keys : List Bytes) : ∀ result,
    (sunionLoop data keys result).resultAt t =
      unionLoop (keys.map (findLive t data)) result := by
  induction keys with
  | nil => exact fun _ => rfl
  | cons key rest ih =>
    intro result
    rw [sunionLoop, resultAt_findLiveTimed, List.map_cons]
    -- a missing key is passed over, and so is one of another type
    cases findLive t data key with
    | none => exact ih result
    | some e =>
      cases hset : setValue.get? e.value with
      | none =>
        simp only [unionLoop, hset]
        exact ih result
      | some set =>
        simp only [unionLoop, hset]
        exact ih _

/-- `sinter` meets the sets that are live at the instant, up to the first that is missing or
leaves nothing. -/
theorem resultAt_sinterLoop (keys : List Bytes) : ∀ result,
    (sinterLoop data keys result).resultAt t =
      interLoop (keys.map (findLive t data)) result := by
  induction keys with
  | nil => exact fun _ => rfl
  | cons key rest ih =>
    intro result
    rw [sinterLoop, resultAt_findLiveTimed, List.map_cons]
    -- a missing key ends the loop, and so does one of another type
    cases findLive t data key with
    | none => rfl
    | some e =>
      cases hset : setValue.get? e.value with
      | none =>
        simp only [interLoop, hset]
        rfl
      | some set =>
        cases result with
        | none =>
          simp only [interLoop, hset]
          exact ih _
        | some result =>
          simp only [interLoop, hset]
          split_ifs
          · rfl
          · exact ih _

/-- `dbsize` counts the entries that are live at the instant. -/
theorem resultAt_dbsizeLoop (entries : List (Bytes × Entry)) : ∀ count,
    (dbsizeLoop entries count).resultAt t =
      count + entries.countP fun e => !e.2.isExpired t := by
  induction entries with
  | nil => exact fun count => (Nat.add_zero count).symm
  | cons e rest ih =>
    intro count
    rw [dbsizeLoop, resultAt_judge, ih, List.countP_cons]
    cases e.2.isExpired t with
    | false =>
      show count + 1 + _ = count + (_ + 1)
      omega
    | true => rfl

/-- `keys` lists the entries that are live at the instant and match. -/
theorem resultAt_keysLoop (pattern : Bytes) (entries : List (Bytes × Entry)) : ∀ out,
    (keysLoop pattern entries out).resultAt t =
      out ++ (entries.filter fun e => !e.2.isExpired t && globMatch pattern e.1).map Prod.fst := by
  induction entries with
  | nil => exact fun out => (List.append_nil out).symm
  | cons e rest ih =>
    intro out
    rw [keysLoop, resultAt_judge]
    cases hexpired : e.2.isExpired t with
    | true =>
      rw [List.filter_cons_of_neg (by simp [hexpired])]
      exact ih out
    | false =>
      rw [if_neg Bool.false_ne_true]
      split_ifs with hmatch
      · rw [List.filter_cons_of_pos (by simp [hexpired, hmatch]), ih, List.append_assoc]
        rfl
      · rw [List.filter_cons_of_neg (by simp [hmatch])]
        exact ih out

end instant

/-! ## Snapshots -/

/-- On a clock that does not run backwards, `q` judges all entries as at one instant
between its first and its last reading, and has the result of `read` at this instant,
exactly if no deadline that had not passed is at or before one that had. -/
def Snapshot (q : Timed UInt64 ρ) (read : UInt64 → ρ) : Prop :=
  ∀ clock, Monotone clock →
    (Timed.Consistent (q.run clock 0).2 ↔
      ∃ t, Timed.Between (q.run clock 0).2 t ∧
        (∀ a ∈ (q.run clock 0).2, a.Passed ↔ a.deadline ≤ t) ∧ (q.run clock 0).1 = read t)

/-- A read that is right at each instant is a snapshot where its judgements agree with one. -/
theorem snapshot_of_resultAt {q : Timed UInt64 ρ} {read : UInt64 → ρ}
    (h : ∀ t, q.resultAt t = read t) : Snapshot q read := by
  intro clock hclock
  -- if all is judged as at `t`, the result is the one at `t`
  rw [Timed.consistent_iff (q.pairwise_run hclock 0).2]
  refine exists_congr fun t => and_congr_right fun _ => ?_
  refine (and_iff_left_of_imp fun hanswers => ?_).symm
  rw [← h, q.run_eq_resultAt hanswers]

/-- **Reads of many keys are snapshots** exactly if, of the deadlines they ask for, those
that had passed are before those that had not. -/
theorem multi_key_reads_snapshot (s : Store) :
    (∀ keys, Snapshot (s.existsTimed keys) (s.exists · keys)) ∧
    (∀ keys, Snapshot (s.mgetTimed keys) (s.mget · keys)) ∧
    (∀ keys, Snapshot (s.sunionTimed keys) (s.sunion · keys)) ∧
    (∀ keys, Snapshot (s.sinterTimed keys) (s.sinter · keys)) ∧
    (∀ pattern, Snapshot (s.keysTimed pattern) (s.keys · pattern)) ∧
    Snapshot s.dbsizeTimed s.dbsize := by
  refine ⟨fun keys => snapshot_of_resultAt fun t => ?_,
    fun keys => snapshot_of_resultAt fun t => ?_, fun keys => snapshot_of_resultAt fun t => ?_,
    fun keys => snapshot_of_resultAt fun t => ?_,
    fun pattern => snapshot_of_resultAt fun t => ?_, snapshot_of_resultAt fun t => ?_⟩
  · exact (resultAt_existsLoop t s.data keys 0).trans (Int.zero_add _)
  · exact resultAt_mgetLoop t s.data keys []
  · exact resultAt_sunionLoop t s.data keys FlatMap.empty
  · rw [sinterTimed, sinter]
    split_ifs
    · rfl
    · exact resultAt_sinterLoop t s.data keys none
  · exact resultAt_keysLoop t pattern s.data.entries []
  · exact (resultAt_dbsizeLoop t s.data.entries 0).trans (Nat.zero_add _)

/-- One deadline has passed before the call, the other one is not reached in it. -/
theorem multi_key_reads_snapshot_mget :
    let s := (Store.empty.set (ascii "a") (ascii "x") 3).set (ascii "b") (ascii "y") 9
    let clock : Nat → UInt64 := fun k => if k = 0 then 4 else 6
    let run := (s.mgetTimed [ascii "a", ascii "b"]).run clock 0
    ∃ t, Timed.Between run.2 t ∧ run.1 = s.mget t [ascii "a", ascii "b"] := by
  intro s clock run
  have hclock : Monotone clock := monotone_nat_of_le_succ fun k => by
    cases k with
    | zero => decide
    | succ k => exact le_refl (6 : UInt64)
  have hasked : run.2 = [⟨3, 4⟩, ⟨9, 6⟩] := rfl
  have hconsistent : Timed.Consistent run.2 := by
    rw [hasked, Timed.Consistent]
    decide
  obtain ⟨t, hbetween, -, hresult⟩ :=
    ((multi_key_reads_snapshot s).2.1 [ascii "a", ascii "b"] clock hclock).mp hconsistent
  exact ⟨t, hbetween, hresult⟩

/-- The deadline of a repeated key passes between the two looks at it. -/
theorem mget_not_snapshot :
    let s : Store := Store.empty.set (ascii "k") (ascii "v") 5
    let clock : Nat → UInt64 := fun k => if k = 0 then 4 else 6
    let run := (s.mgetTimed [ascii "k", ascii "k"]).run clock 0
    Monotone clock ∧ run.1 = [some (ascii "v"), none] ∧
      ∀ t, run.1 ≠ s.mget t [ascii "k", ascii "k"] := by
  intro s clock run
  have hrun : run.1 = [some (ascii "v"), none] := rfl
  refine ⟨monotone_nat_of_le_succ fun k => ?_, hrun, fun t h => ?_⟩
  · cases k with
    | zero => decide
    | succ k => exact le_refl (6 : UInt64)
  · have hsame : s.mget t [ascii "k", ascii "k"] =
        [stringOf (findLive t s.data (ascii "k")), stringOf (findLive t s.data (ascii "k"))] := rfl
    rw [hrun, hsame] at h
    -- at one instant both places show the same
    obtain ⟨hfirst, hsecond⟩ := List.cons.inj h
    rw [← hfirst] at hsecond
    cases hsecond

end Store

end Redix
