import Mathlib.Data.List.Count
import Mathlib.Logic.Function.Basic
import Mathlib.Logic.Relation

/-!
# Exclusive ownership

Owners hold at most one resource each. A resource is acquired once, may pass from owner to owner,
and in the end is either released, to be looked after elsewhere, or closed by its owner.

- `Ledger`: who holds what, and the log of what became of the resources; `Step`: what may happen;
- `Kept`: no resource has two owners, and the log accounts for every resource: one that is held
  has been acquired and nothing else, and one that is not has gone as often as it has come;
- `Kept.step`, `kept_of_reaches`: this holds after every run;
- `Kept.closed_le_one`, `Kept.not_closed_of_released`, `Kept.closed_once`: what it says of closing.
-/

universe u v

namespace Ownership

variable {ι : Type u} {δ : Type v}

/-- What happens to a resource, other than that it is passed on. -/
inductive Event (δ : Type v) where
  | acquired (d : δ)
  | released (d : δ)
  | closed (d : δ)
deriving DecidableEq

/-- What each owner holds, and what has happened. -/
structure Ledger (ι : Type u) (δ : Type v) where
  holds : ι → Option δ := fun _ => none
  log : List (Event δ) := []

section step

variable [DecidableEq ι]

/-- What may happen next. -/
inductive Step : Ledger ι δ → Ledger ι δ → Prop
  | acquire {L : Ledger ι δ} {i : ι} {d : δ} (hfree : L.holds i = none)
      (hnew : Event.acquired d ∉ L.log) :
      Step L ⟨Function.update L.holds i (some d), L.log ++ [.acquired d]⟩
  | transfer {L : Ledger ι δ} {i j : ι} (hne : i ≠ j) (hfree : L.holds j = none) :
      Step L ⟨Function.update (Function.update L.holds i none) j (L.holds i), L.log⟩
  | release {L : Ledger ι δ} {i : ι} {d : δ} (h : L.holds i = some d) :
      Step L ⟨Function.update L.holds i none, L.log ++ [.released d]⟩
  | close {L : Ledger ι δ} {i : ι} {d : δ} (h : L.holds i = some d) :
      Step L ⟨Function.update L.holds i none, L.log ++ [.closed d]⟩

/-- The ledgers that steps lead to. -/
def Reaches : Ledger ι δ → Ledger ι δ → Prop := Relation.ReflTransGen Step

end step

/-! ## Who holds what after a step -/

section holds

variable [DecidableEq ι] {f : ι → Option δ} {i j k : ι} {d d' : δ}

/-- Who holds what, after one has taken something. -/
theorem update_some_iff (hfree : f i = none) :
    Function.update f i (some d) k = some d' ↔ (k = i ∧ d = d') ∨ f k = some d' := by
  rw [Function.update_apply]
  split_ifs with hk
  · subst hk
    simp [hfree]
  · simp [hk]

/-- Who holds what, after one has given something up. -/
theorem update_none_iff : Function.update f i none k = some d' ↔ k ≠ i ∧ f k = some d' := by
  rw [Function.update_apply]
  split_ifs with hk <;> simp [hk]

/-- Who holds what, after one has handed something to another. -/
theorem update_update_iff (hne : i ≠ j) (hfree : f j = none) :
    Function.update (Function.update f i none) j (f i) k = some d' ↔
      (k = j ∧ f i = some d') ∨ (k ≠ i ∧ f k = some d') := by
  rw [Function.update_apply]
  split_ifs with hk
  · subst hk
    simp [hfree]
  · rw [update_none_iff]
    simp [hk]

end holds

/-! ## The books -/

variable [DecidableEq δ]

/-- The books are in order. -/
structure Kept (L : Ledger ι δ) : Prop where
  unique : ∀ {i j d}, L.holds i = some d → L.holds j = some d → i = j
  held : ∀ {i d}, L.holds i = some d →
    .acquired d ∈ L.log ∧ .released d ∉ L.log ∧ .closed d ∉ L.log
  settled : ∀ d, (∀ i, L.holds i ≠ some d) →
    L.log.count (.acquired d) = L.log.count (.released d) + L.log.count (.closed d)
  once : ∀ d, L.log.count (.acquired d) ≤ 1

namespace Kept

variable {L L' : Ledger ι δ} {i j : ι} {d : δ}

/-- At the beginning nothing is held. -/
theorem empty : Kept ({} : Ledger ι δ) where
  unique h := by cases h
  held h := by cases h
  settled _ _ := rfl
  once _ := Nat.zero_le 1

/-- Nothing has happened to what has not been acquired. -/
theorem untouched (h : Kept L) (hnew : Event.acquired d ∉ L.log) :
    (∀ i, L.holds i ≠ some d) ∧ .released d ∉ L.log ∧ .closed d ∉ L.log := by
  have hnone : ∀ i, L.holds i ≠ some d := fun i hi => hnew (h.held hi).1
  have hcount := h.settled d hnone
  rw [List.count_eq_zero_of_not_mem hnew] at hcount
  exact ⟨hnone, List.count_eq_zero.mp (by omega), List.count_eq_zero.mp (by omega)⟩

/-! ## What the books say -/

/-- A resource goes at most once, one way or the other. -/
theorem gone_le_one (h : Kept L) (d : δ) :
    L.log.count (.released d) + L.log.count (.closed d) ≤ 1 := by
  by_cases hheld : ∃ i, L.holds i = some d
  · obtain ⟨i, hi⟩ := hheld
    obtain ⟨-, hreleased, hclosed⟩ := h.held hi
    rw [List.count_eq_zero_of_not_mem hreleased, List.count_eq_zero_of_not_mem hclosed]
    exact Nat.zero_le 1
  · rw [← h.settled d (not_exists.mp hheld)]
    exact h.once d

/-- **Nothing is closed twice.** -/
theorem closed_le_one (h : Kept L) (d : δ) : L.log.count (.closed d) ≤ 1 :=
  Nat.le_trans (Nat.le_add_left _ _) (h.gone_le_one d)

/-- **What was released is not closed.** -/
theorem not_closed_of_released (h : Kept L) (hreleased : .released d ∈ L.log) :
    .closed d ∉ L.log := by
  have hgone := h.gone_le_one d
  have hpos := List.count_pos_iff.mpr hreleased
  exact List.count_eq_zero.mp (by omega)

/-- What has been acquired, is not held and was not released has been closed. -/
theorem closed_once (h : Kept L) (hacquired : .acquired d ∈ L.log)
    (hreleased : .released d ∉ L.log) (hnone : ∀ i, L.holds i ≠ some d) :
    L.log.count (.closed d) = 1 := by
  have hcount := h.settled d hnone
  have hpos := List.count_pos_iff.mpr hacquired
  have honce := h.once d
  rw [List.count_eq_zero_of_not_mem hreleased] at hcount
  omega

/-! ## What a step does to them -/

variable [DecidableEq ι]

/-- What is new may be taken by somebody who holds nothing. -/
theorem acquire (h : Kept L) (hfree : L.holds i = none) (hnew : Event.acquired d ∉ L.log) :
    Kept ⟨Function.update L.holds i (some d), L.log ++ [.acquired d]⟩ := by
  obtain ⟨hnone, hreleased, hclosed⟩ := h.untouched hnew
  refine ⟨fun {k l d'} hk hl => ?_, fun {k d'} hk => ?_, fun d' hd' => ?_, fun d' => ?_⟩
  · rw [update_some_iff hfree] at hk hl
    rcases hk with ⟨rfl, rfl⟩ | hk
    · rcases hl with ⟨rfl, -⟩ | hl
      · rfl
      · exact absurd hl (hnone l)
    · rcases hl with ⟨rfl, rfl⟩ | hl
      · exact absurd hk (hnone k)
      · exact h.unique hk hl
  · rw [update_some_iff hfree] at hk
    simp only [List.mem_append, List.mem_singleton, reduceCtorEq, or_false]
    rcases hk with ⟨rfl, rfl⟩ | hk
    · exact ⟨.inr rfl, hreleased, hclosed⟩
    · obtain ⟨hacquired, hrest⟩ := h.held hk
      exact ⟨.inl hacquired, hrest⟩
  · -- what nobody holds now is not the new resource
    have hother : d ≠ d' := by
      rintro rfl
      exact hd' i ((update_some_iff hfree).mpr (.inl ⟨rfl, rfl⟩))
    have hbefore := h.settled d' fun k hk => hd' k ((update_some_iff hfree).mpr (.inr hk))
    simpa [List.count_append, List.count_singleton, hother] using hbefore
  · rw [List.count_append, List.count_singleton]
    by_cases hsame : d = d'
    · subst hsame
      have hnever := List.count_eq_zero_of_not_mem hnew
      simp [hnever]
    · have hbefore := h.once d'
      simpa [hsame] using hbefore

/-- What is held may be handed to somebody who holds nothing. -/
theorem transfer (h : Kept L) (hne : i ≠ j) (hfree : L.holds j = none) :
    Kept ⟨Function.update (Function.update L.holds i none) j (L.holds i), L.log⟩ := by
  refine ⟨fun {k l d'} hk hl => ?_, fun {k d'} hk => ?_, fun d' hd' => ?_, h.once⟩
  · rw [update_update_iff hne hfree] at hk hl
    -- after the transfer `j` holds what `i` did, and the others what they did
    rcases hk with ⟨rfl, hk⟩ | ⟨hki, hk⟩
    · rcases hl with ⟨rfl, -⟩ | ⟨hli, hl⟩
      · rfl
      · exact absurd (h.unique hl hk) hli
    · rcases hl with ⟨rfl, hl⟩ | ⟨-, hl⟩
      · exact absurd (h.unique hk hl) hki
      · exact h.unique hk hl
  · rw [update_update_iff hne hfree] at hk
    rcases hk with ⟨-, hk⟩ | ⟨-, hk⟩ <;> exact h.held hk
  · refine h.settled d' fun k hk => ?_
    -- nothing is lost: what `i` held is found at `j`
    by_cases hki : k = i
    · subst hki
      exact hd' j ((update_update_iff hne hfree).mpr (.inl ⟨rfl, hk⟩))
    · exact hd' k ((update_update_iff hne hfree).mpr (.inr ⟨hki, hk⟩))

/-- An owner gives up what it holds, either way. -/
theorem drop {e : Event δ} (h : Kept L) (hi : L.holds i = some d)
    (he : e = .released d ∨ e = .closed d) :
    Kept ⟨Function.update L.holds i none, L.log ++ [e]⟩ := by
  obtain ⟨hacquired, hreleased, hclosed⟩ := h.held hi
  have hone : L.log.count (.acquired d) = 1 :=
    Nat.le_antisymm (h.once d) (List.count_pos_iff.mpr hacquired)
  refine ⟨fun {k l d'} hk hl => ?_, fun {k d'} hk => ?_, fun d' hd' => ?_, fun d' => ?_⟩
  · rw [update_none_iff] at hk hl
    exact h.unique hk.2 hl.2
  · rw [update_none_iff] at hk
    have hother : d ≠ d' := by
      rintro rfl
      exact hk.1 (h.unique hk.2 hi)
    have hbefore := h.held hk.2
    rcases he with rfl | rfl <;> simpa [Ne.symm hother] using hbefore
  · by_cases hsame : d = d'
    · -- one way, and once
      subst hsame
      have hgone := List.count_eq_zero_of_not_mem hreleased
      have hopen := List.count_eq_zero_of_not_mem hclosed
      rcases he with rfl | rfl <;> simp [hone, hgone, hopen]
    · have hbefore := h.settled d' fun k hk => by
        refine hd' k (update_none_iff.mpr ⟨?_, hk⟩)
        rintro rfl
        exact hsame (Option.some.inj (hi.symm.trans hk))
      rcases he with rfl | rfl <;>
        simpa [List.count_append, List.count_singleton, hsame] using hbefore
  · have hbefore := h.once d'
    rcases he with rfl | rfl <;> simpa using hbefore

/-- **One step** keeps the books in order. -/
theorem step (h : Kept L) (hstep : Step L L') : Kept L' := by
  cases hstep with
  | acquire hfree hnew => exact h.acquire hfree hnew
  | transfer hne hfree => exact h.transfer hne hfree
  | release hi => exact h.drop hi (.inl rfl)
  | close hi => exact h.drop hi (.inr rfl)

end Kept

/-- **The books are in order after every run.** -/
theorem kept_of_reaches [DecidableEq ι] {L : Ledger ι δ} (h : Reaches {} L) : Kept L := by
  induction h with
  | refl => exact Kept.empty
  | tail _ hstep ih => exact ih.step hstep

end Ownership
