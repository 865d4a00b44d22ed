import Mathlib.Data.List.TakeWhile
import Mathlib.Logic.Function.Iterate

/-!
# Sweeping the front of a list

A sweep looks at the first `n` elements of a list and drops those that are not to be kept. The
next sweep starts at the front again, so it looks further only as far as elements were dropped.

- `iterate_sweep_append`: what stands behind `n` elements that are kept is never looked at;
- `iterate_sweep_eq`: where everything to be dropped is in reach, as many sweeps as there is to
  drop drop it all;
- `exists_sweeps_iff`: so being in reach is exactly what it takes.
-/

universe u

namespace List

variable {α : Type u} {keep : α → Bool} {n : Nat} {l : List α}

/-- Drop, of the first `n` elements, those that are not to be kept. -/
def sweep (keep : α → Bool) (n : Nat) (l : List α) : List α :=
  (l.take n).filter keep ++ l.drop n

/-- Before each element that is to be dropped stand fewer than `n` that are kept. -/
def InReach (keep : α → Bool) (n : Nat) (l : List α) : Prop :=
  ∀ before x after, l = before ++ x :: after → keep x = false →
    (before.filter keep).length < n

/-! ## One sweep -/

/-- A visit to what is kept uses up a visit. -/
theorem sweep_cons_of_pos {x : α} (hx : keep x = true) :
    (x :: l).sweep keep (n + 1) = x :: l.sweep keep n := by
  rw [sweep, take_succ_cons, drop_succ_cons, filter_cons_of_pos hx, cons_append, sweep]

/-- A visit to what is not kept removes it. -/
theorem sweep_cons_of_neg {x : α} (hx : ¬ keep x = true) :
    (x :: l).sweep keep (n + 1) = l.sweep keep n := by
  rw [sweep, take_succ_cons, drop_succ_cons, filter_cons_of_neg hx, sweep]

/-- A sweep drops nothing that is to be kept. -/
@[simp] theorem filter_sweep (keep : α → Bool) (n : Nat) (l : List α) :
    (l.sweep keep n).filter keep = l.filter keep := by
  rw [sweep, filter_append, filter_filter]
  simp only [Bool.and_self]
  rw [← filter_append, take_append_drop]

/-- Where there is nothing to drop, nothing happens. -/
theorem sweep_filter (keep : α → Bool) (n : Nat) (l : List α) :
    (l.filter keep).sweep keep n = l.filter keep := by
  have hkept : ((l.filter keep).take n).filter keep = (l.filter keep).take n :=
    filter_eq_self.mpr fun x hx => (mem_filter.mp (mem_of_mem_take hx)).2
  rw [sweep, hkept, take_append_drop]

/-- What is not visited stays. -/
theorem sweep_append (h : n ≤ l.length) (rest : List α) :
    (l ++ rest).sweep keep n = l.sweep keep n ++ rest := by
  rw [sweep, take_append_of_le_length h, drop_append_of_le_length h, sweep, append_assoc]

/-- What a sweep leaves to be dropped stood behind the front. -/
theorem sweep_eq_append {before after : List α} {x : α} (hx : keep x = false)
    (h : l.sweep keep n = before ++ x :: after) :
    ∃ passed, before = (l.take n).filter keep ++ passed ∧ l.drop n = passed ++ x :: after := by
  rw [sweep, append_eq_append_iff] at h
  rcases h with ⟨passed, hbefore, hdrop⟩ | ⟨kept, hfront, hrest⟩
  · exact ⟨passed, hbefore, hdrop⟩
  · cases kept with
    | nil =>
      rw [append_nil] at hfront
      exact ⟨[], by rw [append_nil, hfront], hrest.symm⟩
    | cons y kept =>
      -- it would have been kept
      obtain rfl : x = y := (cons.inj hrest).1
      have hmem : x ∈ (l.take n).filter keep := by rw [hfront]; simp
      rw [(mem_filter.mp hmem).2] at hx
      cases hx

/-- What is in reach stays in reach. -/
theorem InReach.sweep (h : InReach keep n l) : InReach keep n (l.sweep keep n) := by
  intro before x after heq hx
  obtain ⟨passed, rfl, hdrop⟩ := sweep_eq_append hx heq
  have hl : l = (l.take n ++ passed) ++ x :: after := by
    rw [append_assoc, ← hdrop, take_append_drop]
  have hlt := h _ x after hl hx
  rw [filter_append] at hlt ⊢
  rwa [filter_filter, funext fun y => Bool.and_self (keep y)]

/-- Where everything is in reach, a sweep drops something if there is something to drop. -/
theorem InReach.length_sweep_lt (h : InReach keep n l) (hl : l.filter keep ≠ l) :
    (l.sweep keep n).length < l.length := by
  -- the first element to be dropped
  have hsplit : l.takeWhile keep ++ l.dropWhile keep = l := takeWhile_append_dropWhile
  have hfront : (l.takeWhile keep).filter keep = l.takeWhile keep :=
    filter_eq_self.mpr fun y hy => mem_takeWhile_imp hy
  cases hdrop : l.dropWhile keep with
  | nil =>
    rw [hdrop, append_nil] at hsplit
    rw [hsplit] at hfront
    exact absurd hfront hl
  | cons x after =>
    have hx : keep x = false := by
      have hhead := head_dropWhile_not keep (l := l) (by rw [hdrop]; exact cons_ne_nil x after)
      simpa [hdrop] using hhead
    have hlt := h _ x after (by rw [← hdrop, hsplit]) hx
    rw [hfront] at hlt
    have hmem : x ∈ l.take n := by
      rw [← hsplit, hdrop, take_append, mem_append]
      refine .inr ?_
      obtain ⟨m, hm⟩ := Nat.exists_eq_add_of_lt hlt
      rw [hm, Nat.add_assoc, Nat.add_sub_cancel_left, take_succ_cons]
      exact mem_cons_self
    have hfewer : ((l.take n).filter keep).length < (l.take n).length :=
      length_filter_lt_length_iff_exists.mpr ⟨x, hmem, by rw [hx]; exact Bool.false_ne_true⟩
    calc (l.sweep keep n).length
        = ((l.take n).filter keep).length + (l.drop n).length := by rw [List.sweep, length_append]
      _ < (l.take n).length + (l.drop n).length := Nat.add_lt_add_right hfewer _
      _ = l.length := by rw [← length_append, take_append_drop]

/-! ## Sweep after sweep -/

/-- However many sweeps there are, what is to be kept is kept. -/
theorem filter_iterate_sweep (k : Nat) :
    ∀ l : List α, ((List.sweep keep n)^[k] l).filter keep = l.filter keep := by
  induction k with
  | zero => exact fun _ => rfl
  | succ k ih =>
    intro l
    rw [Function.iterate_succ_apply, ih, filter_sweep]

/-- What stands behind `n` elements that are kept is never looked at. -/
theorem iterate_sweep_append (rest : List α) (k : Nat) :
    ∀ {l : List α}, n ≤ (l.filter keep).length →
      (List.sweep keep n)^[k] (l ++ rest) = (List.sweep keep n)^[k] l ++ rest := by
  induction k with
  | zero => exact fun _ => rfl
  | succ k ih =>
    intro l h
    have hlen : n ≤ l.length := Nat.le_trans h (length_filter_le keep l)
    rw [Function.iterate_succ_apply, sweep_append hlen, ih (by rwa [filter_sweep]),
      Function.iterate_succ_apply]

/-- As many sweeps as there are elements to drop drop them all. -/
theorem iterate_sweep_eq (k : Nat) :
    ∀ {l : List α}, InReach keep n l → l.length ≤ (l.filter keep).length + k →
      (List.sweep keep n)^[k] l = l.filter keep := by
  induction k with
  | zero => exact fun _ hlen => (filter_sublist.eq_of_length_le hlen).symm
  | succ k ih =>
    intro l h hlen
    by_cases hall : l.filter keep = l
    · have hfixed : l.sweep keep n = l := by
        rw [← hall]
        exact sweep_filter keep n l
      rw [Function.iterate_fixed hfixed, hall]
    · have hlt := h.length_sweep_lt hall
      rw [Function.iterate_succ_apply, ih h.sweep (by rw [filter_sweep]; omega), filter_sweep]

/-- **Sweeping drops everything there is to drop exactly if all of it is in reach.** -/
theorem exists_sweeps_iff :
    (∃ k, (List.sweep keep n)^[k] l = l.filter keep) ↔ InReach keep n l := by
  constructor
  · rintro ⟨k, hk⟩ before x after rfl hx
    by_contra hfar
    rw [iterate_sweep_append (x :: after) k (Nat.le_of_not_lt hfar)] at hk
    have hmem : x ∈ (before ++ x :: after).filter keep := by
      rw [← hk]
      simp
    rw [(mem_filter.mp hmem).2] at hx
    cases hx
  · exact fun h => ⟨l.length, iterate_sweep_eq l.length h (Nat.le_add_left _ _)⟩

end List
