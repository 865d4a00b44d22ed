import Mathlib.Order.Lattice
import Mathlib.Order.Monotone.Basic
import Mathlib.Data.List.Pairwise

/-!
# Computations that ask the time

A computation that asks, one after another, whether deadlines have passed. Each
question is answered by a clock reading of its own, and what is asked next may depend
on the answers.

- `Timed.run`: the result and the questions, with their readings;
- `Timed.resultAt`: the result if every reading were the same;
- `Timed.run_eq_resultAt`: if the questions are answered as at one instant, the result
  is the one of this instant;
- `Timed.consistent_iff`: on a clock that does not run backwards, there is such an
  instant exactly if the deadlines that had passed are before those that had not.
-/

universe u v

/-- A computation that asks whether deadlines have passed. -/
inductive Timed (τ : Type u) (ρ : Type v) where
  | done (result : ρ)
  | ask (deadline : τ) (next : Bool → Timed τ ρ)

namespace Timed

variable {τ : Type u} {ρ : Type v} [LinearOrder τ]

/-- A question that was asked, and the clock reading that answered it. -/
structure Asked (τ : Type u) where
  deadline : τ
  reading : τ

/-- The answer: the deadline had passed. -/
def Asked.Passed (a : Asked τ) : Prop := a.deadline ≤ a.reading

instance decidablePassed (a : Asked τ) : Decidable a.Passed :=
  inferInstanceAs (Decidable (a.deadline ≤ a.reading))

/-- Run a computation, the first question of which gets the `k`-th reading. -/
def run (clock : Nat → τ) : Nat → Timed τ ρ → ρ × List (Asked τ)
  | _, done result => (result, [])
  | k, ask deadline next =>
    let (result, asked) := run clock (k + 1) (next (deadline ≤ clock k))
    (result, ⟨deadline, clock k⟩ :: asked)

/-- The result of a computation if every reading is `t`. -/
def resultAt (t : τ) : Timed τ ρ → ρ
  | done result => result
  | ask deadline next => (next (deadline ≤ t)).resultAt t

/-- The deadlines that had passed are before those that had not. -/
def Consistent (asked : List (Asked τ)) : Prop :=
  ∀ a ∈ asked, ∀ b ∈ asked, a.Passed → ¬ b.Passed → a.deadline < b.deadline

/-- Not before the first reading, and not after the last one. -/
def Between (asked : List (Asked τ)) (t : τ) : Prop :=
  (∀ first ∈ asked.head?, first.reading ≤ t) ∧ ∀ last ∈ asked.getLast?, t ≤ last.reading

variable {clock : Nat → τ} {t : τ} {asked : List (Asked τ)}

/-- A computation whose questions are answered as at one instant. -/
theorem run_eq_resultAt (q : Timed τ ρ) :
    ∀ {k : Nat}, (∀ a ∈ (run clock k q).2, a.Passed ↔ a.deadline ≤ t) →
      (run clock k q).1 = q.resultAt t := by
  induction q with
  | done result => exact fun _ => rfl
  | ask deadline next ih =>
    intro k h
    obtain ⟨hfirst, hrest⟩ := List.forall_mem_cons.mp h
    have hanswer : decide (deadline ≤ clock k) = decide (deadline ≤ t) :=
      decide_eq_decide.mpr hfirst
    rw [resultAt, ← hanswer]
    exact ih _ hrest

/-- The readings come in order. -/
theorem pairwise_run (hclock : Monotone clock) (q : Timed τ ρ) :
    ∀ k, (∀ a ∈ (run clock k q).2, clock k ≤ a.reading) ∧
      (run clock k q).2.Pairwise fun a b => a.reading ≤ b.reading := by
  induction q with
  | done result => exact fun k => ⟨fun a ha => absurd ha List.not_mem_nil, .nil⟩
  | ask deadline next ih =>
    intro k
    obtain ⟨hlater, hsorted⟩ := ih (deadline ≤ clock k) (k + 1)
    have hnext : ∀ a ∈ (run clock (k + 1) (next (deadline ≤ clock k))).2, clock k ≤ a.reading :=
      fun a ha => (hclock (Nat.le_succ k)).trans (hlater a ha)
    exact ⟨List.forall_mem_cons.mpr ⟨le_refl _, hnext⟩, List.pairwise_cons.mpr ⟨hnext, hsorted⟩⟩

/-- The latest of some instants, but not before `low`. -/
theorem exists_latest (low : τ) (instants : List τ) :
    ∃ t, low ≤ t ∧ (∀ d ∈ instants, d ≤ t) ∧ (t = low ∨ t ∈ instants) := by
  induction instants with
  | nil => exact ⟨low, le_refl _, fun d hd => absurd hd List.not_mem_nil, .inl rfl⟩
  | cons d rest ih =>
    obtain ⟨t, hlow, hle, hmem⟩ := ih
    rcases le_total d t with hd | hd
    · exact ⟨t, hlow, List.forall_mem_cons.mpr ⟨hd, hle⟩,
        hmem.imp_right (List.mem_cons_of_mem d)⟩
    · refine ⟨d, hlow.trans hd, List.forall_mem_cons.mpr ⟨le_refl _, ?_⟩,
        .inr List.mem_cons_self⟩
      exact fun d' hd' => (hle d' hd').trans hd

/-- On a clock that does not run backwards, no reading is after the last. -/
theorem reading_le_last (hsorted : asked.Pairwise fun a b => a.reading ≤ b.reading)
    {a last : Asked τ} (ha : a ∈ asked) (hlast : last ∈ asked.getLast?) :
    a.reading ≤ last.reading := by
  obtain ⟨before, rfl⟩ := List.getLast?_eq_some_iff.mp hlast
  rcases List.mem_append.mp ha with ha | ha
  · exact (List.pairwise_append.mp hsorted).2.2 a ha last List.mem_cons_self
  · rw [List.mem_singleton.mp ha]

/-- **Snapshots.** On a clock that does not run backwards, the questions are answered as
at one instant between the first and the last reading exactly if the answers are
consistent. -/
theorem consistent_iff [Nonempty τ] (hsorted : asked.Pairwise fun a b => a.reading ≤ b.reading) :
    Consistent asked ↔ ∃ t, Between asked t ∧ ∀ a ∈ asked, a.Passed ↔ a.deadline ≤ t := by
  constructor
  · intro hconsistent
    cases asked with
    | nil =>
      obtain ⟨t⟩ := ‹Nonempty τ›
      exact ⟨t, ⟨nofun, nofun⟩, fun a ha => absurd ha List.not_mem_nil⟩
    | cons first rest =>
      -- the latest deadline that had passed, or the first reading if that is later
      obtain ⟨t, hlow, hle, hmem⟩ := exists_latest first.reading
        (((first :: rest).filter fun a => a.Passed).map Asked.deadline)
      have hpassed : ∀ a ∈ first :: rest, a.Passed → a.deadline ≤ t := fun a ha h =>
        hle _ (List.mem_map_of_mem (List.mem_filter.mpr ⟨ha, decide_eq_true h⟩))
      have hcases : t = first.reading ∨ ∃ a ∈ first :: rest, a.Passed ∧ a.deadline = t := by
        refine hmem.imp_right fun hmem => ?_
        obtain ⟨a, ha, rfl⟩ := List.mem_map.mp hmem
        exact ⟨a, (List.mem_filter.mp ha).1, of_decide_eq_true (List.mem_filter.mp ha).2, rfl⟩
      have hfirst : ∀ a ∈ first :: rest, first.reading ≤ a.reading :=
        List.forall_mem_cons.mpr ⟨le_refl _, (List.pairwise_cons.mp hsorted).1⟩
      refine ⟨t, ⟨?_, fun last hlast => ?_⟩, fun a ha => ⟨hpassed a ha, fun hat => ?_⟩⟩
      · rintro _ ⟨⟩
        exact hlow
      · rcases hcases with rfl | ⟨a, ha, h, rfl⟩
        · exact reading_le_last hsorted List.mem_cons_self hlast
        · exact le_trans h (reading_le_last hsorted ha hlast)
      · -- a deadline that had not passed is after all that had
        by_contra hnot
        rcases hcases with rfl | ⟨b, hb, h, rfl⟩
        · exact hnot (hat.trans (hfirst a ha))
        · exact absurd (hconsistent b hb a ha h hnot) (not_lt.mpr hat)
  · rintro ⟨t, -, hanswers⟩ a ha b hb hpassed hnot
    rw [hanswers b hb, not_le] at hnot
    exact ((hanswers a ha).mp hpassed).trans_lt hnot

end Timed
