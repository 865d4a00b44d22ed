import Mathlib.Data.List.Basic
import Mathlib.Data.Nat.PSub

/-!
# Numbers and reads with checks

A computation on indices goes wrong when a sum wraps, when a difference falls below zero, or when
an index is outside the list. Each of the three has no result here; the differences are those of
`Nat.psub`.

- `fits`: a number below a modulus;
- `reads`: the elements at consecutive positions of a list.
-/

universe u

namespace Checked

/-- A number below the modulus. -/
def fits (modulus n : Nat) : Option Nat := if n < modulus then some n else none

/-- What fits is kept. -/
theorem fits_eq {modulus n : Nat} (h : n < modulus) : fits modulus n = some n := if_pos h

section reads

variable {α : Type u} (l : List α)

/-- The elements at `count` positions from `start` on, each index checked. -/
def reads (start count : Nat) : Option (List α) := (List.range' start count).mapM (l[·]?)

/-- Reads inside the list succeed. -/
theorem reads_eq {l : List α} {start count : Nat} (h : start + count ≤ l.length) :
    reads l start count = some ((l.drop start).take count) := by
  induction count generalizing start with
  | zero => rfl
  | succ count ih =>
    have hstart : start < l.length := by omega
    have hrest : (List.range' (start + 1) count).mapM (l[·]?) = _ := ih (by omega)
    rw [reads, List.range'_succ, List.mapM_cons, hrest, List.getElem?_eq_getElem hstart,
      List.drop_eq_getElem_cons hstart]
    rfl

end reads

end Checked
