import Mathlib.Data.List.Basic

/-!
# Windows of a list

The elements of a list whose positions lie in an interval of the integers, which may reach
beyond the list on either side.

- `window_eq`: they are a `drop` and a `take`;
- `window_self`: the window of one position.
-/

universe u

namespace List

variable {α : Type u} (l : List α) (first last : Int)

/-- The elements at the positions from `first` to `last`, in order. -/
def window : List α :=
  (l.zipIdx.filter fun e => first ≤ (e.2 : Int) ∧ (e.2 : Int) ≤ last).map Prod.fst

/-- Positions counted from `n` on. -/
theorem map_filter_zipIdx (n : Nat) :
    ((l.zipIdx n).filter fun e => first ≤ (e.2 : Int) ∧ (e.2 : Int) ≤ last).map Prod.fst =
      (l.drop (first - n).toNat).take (last + 1 - max first n).toNat := by
  induction l generalizing n with
  | nil => simp
  | cons x rest ih =>
    have hrest := ih (n + 1)
    rw [Int.natCast_add, Int.natCast_one] at hrest
    rw [zipIdx_cons, filter_cons]
    by_cases hfirst : first ≤ n
    · have hnow : (first - n).toNat = 0 ∧ max first n = n := by omega
      have hnext : (first - (n + 1)).toNat = 0 ∧ max first (n + 1) = (n + 1 : Int) := by omega
      rw [hnext.1, hnext.2] at hrest
      rw [hnow.1, hnow.2]
      by_cases hlast : (n : Int) ≤ last
      · have hcount : (last + 1 - n).toNat = (last + 1 - (n + 1)).toNat + 1 := by omega
        rw [if_pos (by simpa using ⟨hfirst, hlast⟩), map_cons, hrest, hcount]
        rfl
      · have hcount : (last + 1 - n).toNat = 0 ∧ (last + 1 - (n + 1)).toNat = 0 := by omega
        rw [if_neg (by simp [hlast]), hrest, hcount.1, hcount.2]
        rfl
    · -- the head stands before the window
      have hdrop : (first - n).toNat = (first - (n + 1)).toNat + 1 := by omega
      have hmax : max first (n + 1) = max first n := by omega
      rw [if_neg (by simp [hfirst]), hrest, hdrop, hmax]
      rfl

/-- A window is what is left after dropping and taking. -/
theorem window_eq :
    l.window first last = (l.drop first.toNat).take (last + 1 - max first 0).toNat := by
  rw [window, map_filter_zipIdx]
  simp

/-- A window of one place. -/
theorem window_self (i : Int) :
    l.window i i = if 0 ≤ i then l[i.toNat]?.toList else [] := by
  rw [window_eq]
  split_ifs with hi
  · have hone : (i + 1 - max i 0).toNat = 1 := by omega
    rw [hone, take_one, head?_drop]
  · have hzero : (i + 1 - max i 0).toNat = 0 := by omega
    rw [hzero, take_zero]

end List
