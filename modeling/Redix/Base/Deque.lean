import Mathlib.Data.List.Perm.Basic

/-!
# Double-ended sequences

The reference for queues, stacks and everything between: one sequence, with
operations at both ends.

- `Deque.Op`: the operations; what each pushes, pops and leaves;
- `Deque.run_perm`: over a run, what was pushed is what was popped and what is left,
  each as often as it was pushed;
- `Deque.run_fifo`: if pushes are at one end and pops at the other, also in the order
  it was pushed.
-/

namespace Deque

universe u

variable {α : Type u}

/-- An operation on a sequence. -/
inductive Op (α : Type u) where
  /-- One value after another, so that the last one comes first. -/
  | pushFront (values : List α)
  | pushBack (values : List α)
  | popFront
  | popBack
  | read

namespace Op

/-- The values an operation adds. -/
def pushed : Op α → List α
  | pushFront values => values
  | pushBack values => values
  | popFront => []
  | popBack => []
  | read => []

/-- The value an operation takes off a sequence. -/
def popped : Op α → List α → Option α
  | pushFront _, _ => none
  | pushBack _, _ => none
  | popFront, seq => seq.head?
  | popBack, seq => seq.getLast?
  | read, _ => none

/-- The sequence after an operation. -/
def apply : Op α → List α → List α
  | pushFront values, seq => values.reverse ++ seq
  | pushBack values, seq => seq ++ values
  | popFront, seq => seq.tail
  | popBack, seq => seq.dropLast
  | read, seq => seq

/-- The operation goes with a queue: in at the back, out at the front. -/
def Fifo : Op α → Prop
  | pushFront _ => False
  | pushBack _ => True
  | popFront => True
  | popBack => False
  | read => True

/-- One operation on a queue keeps the order. -/
theorem apply_fifo {op : Op α} (h : op.Fifo) (seq : List α) :
    (op.popped seq).toList ++ op.apply seq = seq ++ op.pushed := by
  cases op with
  | pushFront values => exact h.elim
  | pushBack values => rfl
  | popFront =>
    rw [pushed, List.append_nil]
    cases seq <;> rfl
  | popBack => exact h.elim
  | read => exact (List.append_nil seq).symm

/-- One operation neither loses nor makes up values. -/
theorem apply_perm (op : Op α) (seq : List α) :
    ((op.popped seq).toList ++ op.apply seq).Perm (seq ++ op.pushed) := by
  cases op with
  | pushFront values =>
    exact ((List.reverse_perm values).append_right seq).trans List.perm_append_comm
  | pushBack values => exact .refl _
  -- first in, first out keeps even the order
  | popFront =>
    have hfifo : (popFront : Op α).Fifo := trivial
    exact .of_eq (apply_fifo hfifo seq)
  | popBack =>
    rw [pushed, List.append_nil]
    by_cases hseq : seq = []
    · rw [hseq]
      exact .refl _
    · rw [popped, apply, List.getLast?_eq_some_getLast hseq]
      refine List.perm_append_comm.trans (.of_eq ?_)
      exact List.dropLast_append_getLast hseq
  | read => exact .of_eq (List.append_nil seq).symm

end Op

/-- The values that operations take off a sequence one after another, and the sequence
after them. -/
def run : List (Op α) → List α → List α × List α
  | [], seq => ([], seq)
  | op :: rest, seq =>
    let (popped, last) := run rest (op.apply seq)
    ((op.popped seq).toList ++ popped, last)

/-- The values that operations add, in order. -/
def pushed (ops : List (Op α)) : List α := ops.flatMap Op.pushed

/-- On its way through the operations, the sequence has fewer than `bound` elements. -/
def StaysBelow (bound : Nat) : List (Op α) → List α → Prop
  | [], seq => seq.length < bound
  | op :: rest, seq => seq.length < bound ∧ StaysBelow bound rest (op.apply seq)

/-- **Conservation**: what was there or has been pushed is popped once, or is there. -/
theorem run_perm (ops : List (Op α)) :
    ∀ seq, ((run ops seq).1 ++ (run ops seq).2).Perm (seq ++ pushed ops) := by
  induction ops with
  | nil => exact fun seq => .of_eq (List.append_nil seq).symm
  | cons op rest ih =>
    intro seq
    rw [run, pushed, List.flatMap_cons, List.append_assoc, ← List.append_assoc seq]
    refine ((ih _).append_left _).trans ?_
    rw [← List.append_assoc]
    exact (op.apply_perm seq).append_right _

/-- **First in, first out**: in a queue, what is popped comes in the order in which it
was pushed, and what is left comes after it. -/
theorem run_fifo {ops : List (Op α)} (h : ∀ op ∈ ops, op.Fifo) :
    ∀ seq, (run ops seq).1 ++ (run ops seq).2 = seq ++ pushed ops := by
  induction ops with
  | nil => exact fun seq => (List.append_nil seq).symm
  | cons op rest ih =>
    intro seq
    rw [run, pushed, List.flatMap_cons, List.append_assoc,
      ih (fun op' hop' => h op' (List.mem_cons_of_mem op hop')), ← List.append_assoc,
      Op.apply_fifo (h op List.mem_cons_self), List.append_assoc]
    rfl

end Deque
