import Mathlib.Order.Basic

/-!
# Progress under fairness

Along an infinite sequence, what relates each element to the next relates it to all later ones
(`kept`), and a count that rises again and again as long as it is below a goal reaches the goal
(`count_reaches`). The count may be of anything that is not lost on the way.
-/

namespace Progress

/-- What each element passes on to the next, all later ones have. -/
theorem kept (start : Nat) (R : Nat → Nat → Prop) (hrefl : ∀ n, R n n)
    (hstep : ∀ n m, start ≤ m → R n m → R n (m + 1)) {n m : Nat} (hstart : start ≤ n)
    (h : n ≤ m) : R n m := by
  induction h with
  | refl => exact hrefl n
  | step h ih => exact hstep n _ (Nat.le_trans hstart h) ih

/-- **A count that rises again and again reaches its goal**, if it never falls. -/
theorem count_reaches (start : Nat) (count : Nat → Nat) (goal : Nat)
    (hmono : ∀ n, start ≤ n → count n ≤ count (n + 1))
    (hrises : ∀ n, start ≤ n → count n < goal →
      ∃ m, n ≤ m ∧ (count m < goal → count m < count (m + 1))) :
    ∃ n, start ≤ n ∧ goal ≤ count n := by
  induction hgap : goal - count start using Nat.strongRecOn generalizing start with
  | ind gap ih =>
    by_cases hgoal : goal ≤ count start
    · exact ⟨start, Nat.le_refl _, hgoal⟩
    obtain ⟨m, hm, hrise⟩ := hrises start (Nat.le_refl _) (by omega)
    by_cases hlater : goal ≤ count m
    · exact ⟨m, hm, hlater⟩
    have hlt := hrise (by omega)
    have hle : count start ≤ count m :=
      kept start (fun n m => count n ≤ count m) (fun _ => Nat.le_refl _)
        (fun _ k hk h => Nat.le_trans h (hmono k hk)) (Nat.le_refl start) hm
    -- from after the rise, the gap is smaller
    obtain ⟨n, hn, hreached⟩ := ih (goal - count (m + 1)) (by omega) (m + 1)
      (fun k hk => hmono k (by omega)) (fun k hk => hrises k (by omega)) rfl
    exact ⟨n, by omega, hreached⟩

end Progress
