import Redix.Base.Sweep
import Redix.Store.Live

/-!
# What sweeping reclaims (store.cpp)

`sweep_expired` visits at most twenty entries and always starts at the first one in key order. So
twenty live entries at the front shield whatever comes after them, for as long as they live.

- `entries_sweepExpired`: one call is a sweep of the entries, in the sense of `List.sweep`;
- `sweeping_reclaims_iff`: repeated calls reclaim every expired entry exactly if fewer than twenty
  live keys come before each of them.
-/

namespace Redix

variable {now : UInt64} {s : Store} {data : DataMap}

/-- Whether an entry of the map is to be kept. -/
def kept (now : UInt64) (e : Bytes × Entry) : Bool := alive now e.2

/-! ## One call -/

/-- The loop over the entries is the sweep of a list, from where it stands. -/
theorem entries_sweepLoop (now : UInt64) :
    ∀ (visits : Nat) {rest before : List (Bytes × Entry)} {data : DataMap},
      data.entries = before ++ rest →
      (Store.sweepLoop now visits rest data).entries = before ++ rest.sweep (kept now) visits
  | 0, _, _, _, h => h
  | _ + 1, [], _, _, h => h
  | visits + 1, e :: rest, before, data, h => by
    rw [Store.sweepLoop]
    -- an expired entry is erased in its place, a live one joins those passed
    by_cases hexp : e.2.isExpired now = true
    · have hkept : ¬ kept now e = true := by simp [kept, alive, hexp]
      rw [if_pos hexp, entries_sweepLoop now visits (FlatMap.entries_erase h),
        List.sweep_cons_of_neg hkept]
    · have hkept : kept now e = true := by simpa [kept, alive] using hexp
      have hnext : data.entries = (before ++ [e]) ++ rest := by rw [h, List.append_assoc]; rfl
      rw [if_neg hexp, entries_sweepLoop now visits hnext, List.sweep_cons_of_pos hkept,
        List.append_assoc]
      rfl

/-- **One call is one sweep.** -/
theorem entries_sweepExpired (now : UInt64) (s : Store) :
    (s.sweepExpired now).data.entries = s.data.entries.sweep (kept now) 20 :=
  entries_sweepLoop now 20 (List.nil_append _).symm

/-! ## Call after call -/

/-- `k` calls of `sweep_expired`, all at one clock reading. -/
def Store.sweeps (now : UInt64) (k : Nat) (s : Store) : Store :=
  (fun s => s.sweepExpired now)^[k] s

/-- Any number of sweeps, on the entries. -/
theorem entries_sweeps (now : UInt64) (k : Nat) (s : Store) :
    (s.sweeps now k).data.entries = (List.sweep (kept now) 20)^[k] s.data.entries := by
  have hstep : Function.Semiconj (fun s : Store => s.data.entries)
      (fun s => s.sweepExpired now) (List.sweep (kept now) 20) :=
    fun s => entries_sweepExpired now s
  exact hstep.iterate_right k s

/-- Sweeps leave the live content as it is. -/
theorem live_sweeps (now : UInt64) (k : Nat) :
    ∀ s : Store, (s.sweeps now k).live now = s.live now := by
  induction k with
  | zero => exact fun _ => rfl
  | succ k ih =>
    intro s
    show ((s.sweepExpired now).sweeps now k).live now = s.live now
    rw [ih, live_sweepExpired]

/-! ## What is in reach -/

/-- How many live keys come before a key. -/
def Store.liveBefore (now : UInt64) (s : Store) (key : Bytes) : Nat :=
  ((s.live now).keys.filter (· < key)).length

/-- The live keys before an entry are the kept entries before it. -/
theorem liveBefore_eq {before after : List (Bytes × Entry)} {e : Bytes × Entry}
    (h : s.data.entries = before ++ e :: after) :
    s.liveBefore now e.1 = (before.filter (kept now)).length := by
  have hsorted := s.data.sorted
  rw [h, List.pairwise_append, List.pairwise_cons] at hsorted
  obtain ⟨-, ⟨hafter, -⟩, hbefore⟩ := hsorted
  -- the entries are sorted, so those with smaller keys are those before it
  have hfilter : s.data.entries.filter (fun e' => e'.1 < e.1) = before := by
    rw [h, List.filter_append, List.filter_cons_of_neg (by simp), List.filter_eq_self.mpr,
      List.filter_eq_nil_iff.mpr, List.append_nil]
    · intro e' he'
      simpa using (hafter e' he').le
    · intro e' he'
      simpa using hbefore e' he' e List.mem_cons_self
  have hkeys : (s.live now).keys = (s.data.entries.filter (kept now)).map Prod.fst := rfl
  rw [Store.liveBefore, hkeys, List.filter_map, List.length_map, List.filter_filter,
    ← hfilter, List.filter_filter]
  simp only [Function.comp_def, Bool.and_comm]

/-- What is in reach of a sweep, in terms of keys. -/
theorem inReach_entries_iff :
    s.data.entries.InReach (kept now) 20 ↔
      ∀ key e, s.data.find? key = some e → e.isExpired now = true → s.liveBefore now key < 20 := by
  constructor
  · intro h key e hfind hexp
    obtain ⟨before, after, hsplit⟩ := List.append_of_mem (s.data.mem_entries_iff.mpr hfind)
    rw [liveBefore_eq hsplit]
    exact h before (key, e) after hsplit (by simp [kept, alive, hexp])
  · intro h before e after hsplit hdropped
    have hmem : e ∈ s.data.entries := by rw [hsplit]; simp
    have hexp : e.2.isExpired now = true := by simpa [kept, alive] using hdropped
    rw [← liveBefore_eq hsplit]
    exact h e.1 e.2 (s.data.mem_entries_iff.mp hmem) hexp

/-- **Sweeping reclaims every expired entry, and no other, exactly if each of them has fewer than
twenty live keys before it.** -/
theorem sweeping_reclaims_iff (now : UInt64) (s : Store) :
    (∃ k, (∀ e ∈ (s.sweeps now k).data.entries, e.2.isExpired now = false) ∧
      (s.sweeps now k).live now = s.live now) ↔
    ∀ key e, s.data.find? key = some e → e.isExpired now = true → s.liveBefore now key < 20 := by
  rw [← inReach_entries_iff, ← List.exists_sweeps_iff]
  refine exists_congr fun k => ?_
  have hsame : ((List.sweep (kept now) 20)^[k] s.data.entries).filter (kept now) =
      s.data.entries.filter (kept now) := List.filter_iterate_sweep k s.data.entries
  rw [← entries_sweeps] at hsame ⊢
  rw [and_iff_left (live_sweeps now k s), ← hsame, eq_comm, List.filter_eq_self]
  simp only [kept, alive, Bool.not_eq_true']

/-- Twenty live keys, and an expired one after them. -/
def shieldingStore : Store where
  data :=
    { entries := (List.range 21).map fun k =>
        ([UInt8.ofNat k], ⟨.string [], if k = 20 then 1 else 0⟩)
      sorted := by decide }

/-- The twenty-first key is never reclaimed. -/
theorem not_reclaims :
    ¬ ∃ k, ∀ e ∈ (shieldingStore.sweeps 5 k).data.entries, e.2.isExpired 5 = false := by
  rintro ⟨k, hk⟩
  have hsplit : shieldingStore.data.entries =
      shieldingStore.data.entries.take 20 ++ [([20], ⟨.string [], 1⟩)] := by decide
  have hfront : 20 ≤ ((shieldingStore.data.entries.take 20).filter (kept 5)).length := by decide
  have hstays : (([20], ⟨.string [], 1⟩) : Bytes × Entry) ∈
      (shieldingStore.sweeps 5 k).data.entries := by
    rw [entries_sweeps, hsplit, List.iterate_sweep_append _ k hfront]
    simp
  exact absurd (hk _ hstays) (by decide)

end Redix
