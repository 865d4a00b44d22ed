import Redix.Base.Keyspace
import Redix.Store.Operations

/-!
# The live content of a store

What a client can see of a store at a clock reading: its entries that have not
expired. The two lookups of the store are lookups in the live content
(`findLive_eq`, `findLiveMut_eq`); the second one also writes back what it
finds, which erases an expired entry. Sweeping leaves the live content alone
(`live_sweepExpired`).
-/

namespace Redix

open Keyspace

/-- Not expired. -/
def alive (now : UInt64) (e : Entry) : Bool := !e.isExpired now

/-- The live content of a store. -/
def Store.live (now : UInt64) (s : Store) : DataMap := purge (alive now) s.data

/-- What is live is what is there and not expired. -/
theorem findLive_eq (now : UInt64) (data : DataMap) (key : Bytes) :
    findLive now data key = (data.find? key).filter (alive now) := by
  unfold findLive
  cases data.find? key with
  | none => rfl
  | some e => cases he : e.isExpired now <;> simp [Option.filter, alive, he]

/-- `find_live_mut` finds what is live and removes what is not. -/
theorem findLiveMut_eq (now : UInt64) (data : DataMap) (key : Bytes) :
    findLiveMut now data key =
      (findLive now data key, data.put key (findLive now data key)) := by
  unfold findLiveMut findLive
  cases hfind : data.find? key with
  | none => rw [FlatMap.put_find? data hfind]
  | some e =>
    -- an expired entry is erased by the way
    cases he : e.isExpired now with
    | true => simp only [he, if_true, FlatMap.erase_eq_put]
    | false =>
      simp only [he, Bool.false_eq_true, if_false]
      rw [FlatMap.put_find? data hfind]

/-- The live content, key by key. -/
theorem find?_live (now : UInt64) (s : Store) (key : Bytes) :
    (s.live now).find? key = findLive now s.data key := by
  rw [Store.live, find?_purge, findLive_eq]

/-- The two tests in the source's loop commute. -/
theorem Store.keys_eq (s : Store) (now : UInt64) (pattern : Bytes) :
    s.keys now pattern = (s.live now).keys.filter (globMatch pattern) := by
  rw [Store.keys, FlatMap.keys, List.filter_map, Store.live, purge, FlatMap.filter,
    List.filter_filter]
  simp only [Function.comp_def, alive, Bool.and_comm]

/-- `dbsize` counts the live content. -/
theorem Store.dbsize_eq (s : Store) (now : UInt64) : s.dbsize now = (s.live now).size :=
  List.countP_eq_length_filter

/-- A live entry is alive. -/
theorem alive_of_findLive {now : UInt64} {data : DataMap} {key : Bytes} {e : Entry}
    (h : findLive now data key = some e) : alive now e = true := by
  rw [findLive_eq] at h
  exact (Option.mem_filter_iff.mp h).2

/-- A live entry is what is stored. -/
theorem find?_of_findLive {now : UInt64} {data : DataMap} {key : Bytes} {e : Entry}
    (h : findLive now data key = some e) : data.find? key = some e := by
  rw [findLive_eq] at h
  exact (Option.mem_filter_iff.mp h).1

/-- What is live is not expired. -/
@[simp] theorem filter_findLive (now : UInt64) (data : DataMap) (key : Bytes) :
    (findLive now data key).filter (alive now) = findLive now data key := by
  rw [findLive_eq, Option.filter_filter]
  simp only [Bool.and_self]

/-- What is expired stays expired. -/
theorem alive_mono {now now' : UInt64} (h : now ≤ now') {e : Entry}
    (he : alive now' e = true) : alive now e = true := by
  simp only [alive, Entry.isExpired, Bool.not_eq_true', Bool.and_eq_false_iff,
    decide_eq_false_iff_not] at he ⊢
  exact he.imp_right fun hlt hle => hlt (UInt64.le_trans hle h)

/-- The live content now is the live part of the live content earlier. -/
theorem purge_live {now now' : UInt64} (h : now ≤ now') (s : Store) :
    purge (alive now') (s.live now) = s.live now' :=
  purge_purge (fun _ he => alive_mono h he) s.data

/-- What is written outlives what was found: it is live as long as that was. -/
def Outlives (o o' : Option Entry) : Prop :=
  ∀ now, o.filter (alive now) = o → o'.filter (alive now) = o'

/-- An entry outlives itself. -/
theorem outlives_self (o : Option Entry) : Outlives o o := fun _ h => h

/-- What has no deadline outlives anything. -/
theorem outlives_noDeadline (o : Option Entry) (value : RedisValue) :
    Outlives o (some ⟨value, 0⟩) := fun _ _ => rfl

/-- A new value lives as long as the old one. -/
theorem outlives_value (value value' : RedisValue) (deadline : UInt64) :
    Outlives (some ⟨value, deadline⟩) (some ⟨value', deadline⟩) := by
  intro now h
  have halive : alive now ⟨value, deadline⟩ = true := by
    by_contra hdead
    rw [Option.filter, if_neg hdead] at h
    cases h
  exact if_pos halive

/-! ## Sweeping -/

/-- The sweep takes away nothing that is live, by induction on its visits. -/
theorem purge_sweepLoop (now : UInt64) :
    ∀ (visits : Nat) (entries : List (Bytes × Entry)) (data : DataMap),
      (∀ e ∈ entries, data.find? e.1 = some e.2) →
      entries.Pairwise (fun a b => a.1 < b.1) →
      purge (alive now) (Store.sweepLoop now visits entries data) =
        purge (alive now) data
  | 0, _, _, _, _ => rfl
  | _ + 1, [], _, _, _ => rfl
  | visits + 1, e :: rest, data, hmem, hsorted => by
    obtain ⟨hlt, hrest⟩ := List.pairwise_cons.mp hsorted
    have hfind : ∀ e' ∈ rest, data.find? e'.1 = some e'.2 := fun e' he' =>
      hmem e' (List.mem_cons_of_mem e he')
    rw [Store.sweepLoop]
    split_ifs with hexp
    · rw [purge_sweepLoop now visits rest (data.erase e.1) _ hrest]
      · -- the erased entry was dead
        have hdead : (purge (alive now) data).find? e.1 = none := by
          rw [find?_purge, hmem e List.mem_cons_self]
          simp [Option.filter, alive, hexp]
        rw [FlatMap.erase_eq_put, purge_put]
        exact FlatMap.put_find? _ hdead
      · intro e' he'
        rw [FlatMap.find?_erase, if_neg (ne_of_lt (hlt e' he')), hfind e' he']
    · exact purge_sweepLoop now visits rest data hfind hrest

/-- Sweeping removes nothing that is live. -/
theorem live_sweepExpired (now : UInt64) (s : Store) :
    (s.sweepExpired now).live now = s.live now :=
  purge_sweepLoop now 20 s.data.entries s.data
    (fun _ he => s.data.mem_entries_iff.mp he) s.data.sorted

/-! ## Programs on a store -/

/-- Run a keyspace program on a store at a clock reading. -/
def Store.exec {ρ : Type} (now : UInt64) (p : Program Bytes Entry ρ) (s : Store) :
    ρ × Store :=
  let (reply, data) := p.run (alive now) s.data
  (reply, ⟨data⟩)

section exec

variable {ρ : Type} {now : UInt64} {s : Store}

/-- A look leaves the store as it is. -/
@[simp] theorem exec_look (key : Bytes) (f : Option Entry → ρ) :
    s.exec now (.look key f) = (f (findLive now s.data key), s) := by
  rw [findLive_eq]
  rfl

/-- A step writes under its key, or nothing. -/
theorem exec_step (key : Bytes) (f : Option Entry → ρ × Option (Option Entry)) :
    s.exec now (.step key f) =
      ((f (findLive now s.data key)).1,
        (f (findLive now s.data key)).2.elim s fun o => ⟨s.data.put key o⟩) := by
  rw [Store.exec, Program.run_step, findLive_eq]
  cases (f ((s.data.find? key).filter (alive now))).2 <;> rfl

/-- The live entry of the key after a step on it. -/
theorem findLive_exec_step (key : Bytes) (f : Option Entry → ρ × Option (Option Entry)) :
    findLive now (s.exec now (.step key f)).2.data key =
      ((f (findLive now s.data key)).2.getD (findLive now s.data key)).filter (alive now) := by
  rw [exec_step]
  cases (f (findLive now s.data key)).2 with
  | none =>
    exact (filter_findLive now s.data key).symm
  | some o =>
    show findLive now (s.data.put key o) key = o.filter (alive now)
    rw [findLive_eq, FlatMap.find?_put_self]

/-- Reads leave the store as it is. -/
theorem exec_reads (keys : List Bytes) (f : List (Option Entry) → ρ) :
    s.exec now (.reads keys fun os => .ret (f os)) =
      (f (keys.map (findLive now s.data)), s) := by
  have hfind : (fun key => (s.data.find? key).filter (alive now)) =
      findLive now s.data := funext fun key => (findLive_eq now s.data key).symm
  rw [Store.exec, Program.run_reads, hfind]
  rfl

end exec

end Redix
