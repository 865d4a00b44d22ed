import Redix.Base.Observation
import Mathlib.Data.List.Pairwise
import Mathlib.Data.Option.Basic

/-!
# Registers with deadlines

A register holds a value or nothing. A value may have a deadline, and from that instant on the
register holds nothing. Instants are natural numbers.

- `Op.apply`: the operations, on what the register holds at the instant;
- `Ledger`: the leases that holders have taken on something, with the instants at which they
  end; a lease is granted exactly if all earlier ones have ended, so that no two overlap
  (`Ledger.disjoint_apply`);
- `Granted.step_eq`: a register that is written only while it is empty, and with a deadline,
  keeps such a ledger.
-/

namespace Register

variable {α : Type} {now later : Nat}

/-- What a register holds. -/
structure Held (α : Type) where
  value : α
  /-- The instant from which on it is gone, if there is one. -/
  until? : Option Nat

/-- Not gone yet. -/
def Held.lives (now : Nat) (held : Held α) : Bool := held.until?.all (now < ·)

/-- What a register holds at an instant. -/
def visible (now : Nat) (r : Option (Held α)) : Option (Held α) := r.filter (Held.lives now)

/-- An operation on a register. -/
inductive Op (α : Type) where
  | read
  /-- Store a value, if that is allowed for a register that holds something, or nothing. -/
  | write (allows : Bool → Bool) (value : α) (lasts : Option Nat)
  /-- Change the value, but not the deadline. -/
  | modify (f : Option α → α)
  | swap (value : α)
  | expire (lasts : Nat)
  | persist
  | remove

/-- What an operation makes of what the register holds. -/
def Op.apply (now : Nat) : Op α → Option (Held α) → Option (Held α)
  | read, held => held
  | write allows value lasts, held =>
    if allows held.isSome then some ⟨value, lasts.map (now + ·)⟩ else held
  | modify f, none => some ⟨f none, none⟩
  | modify f, some held => some { held with value := f (some held.value) }
  | swap value, _ => some ⟨value, none⟩
  | expire lasts, held => held.map fun held => { held with until? := some (now + lasts) }
  | persist, held => held.map fun held => { held with until? := none }
  | remove, _ => none

/-- The register as a machine. What it answers is what it held. -/
def step (now : Nat) (op : Op α) (r : Option (Held α)) : Option (Held α) × Option (Held α) :=
  (visible now r, op.apply now (visible now r))

/-- What is held shows as long as it lives. -/
theorem visible_some (held : Held α) :
    visible now (some held) = if held.lives now then some held else none := rfl

/-- What lives later lives now. -/
theorem Held.lives_mono {held : Held α} (h : now ≤ later) (hlives : held.lives later = true) :
    held.lives now = true := by
  rw [lives, Option.all_eq_true] at hlives ⊢
  exact fun u hu => decide_eq_true (Nat.lt_of_le_of_lt h (of_decide_eq_true (hlives u hu)))

/-- What is not seen now is not seen later. -/
theorem visible_visible (h : now ≤ later) (r : Option (Held α)) :
    visible later (visible now r) = visible later r := by
  cases r with
  | none => rfl
  | some held =>
    rw [visible_some]
    split_ifs with hlives
    · rfl
    · rw [visible_some, if_neg fun hlater => hlives (Held.lives_mono h hlater)]
      rfl

/-! ## Leases -/

/-- A lease: who holds it, and from when to when. -/
structure Lease (α : Type) where
  holder : α
  start : Nat
  stop : Nat

/-- All leases so far, in the order in which they were granted. -/
abbrev Ledger (α : Type) := List (Lease α)

/-- What holders do. -/
inductive LeaseOp (α : Type) where
  | acquire (holder : α) (lasts : Nat)
  | release
  | look

namespace LeaseOp

/-- The operation on a register. -/
def op : LeaseOp α → Op α
  | acquire holder lasts => .write not holder (some lasts)
  | release => .remove
  | look => .read

end LeaseOp

namespace Ledger

/-- The holder at an instant. -/
def holder (now : Nat) (ledger : Ledger α) : Option α :=
  (ledger.find? fun lease => now < lease.stop).map Lease.holder

/-- What holders do to the ledger. A lease is granted if all earlier ones have ended, and
ends early if it is released. -/
def apply (now : Nat) (ledger : Ledger α) : LeaseOp α → Ledger α
  | .acquire holder lasts =>
    if (ledger.holder now).isNone then ledger ++ [⟨holder, now, now + lasts⟩] else ledger
  | .release => ledger.map fun lease => { lease with stop := min lease.stop now }
  | .look => ledger

/-- The ledger as a machine. What it answers is who held the lease. -/
def step (now : Nat) (op : LeaseOp α) (ledger : Ledger α) : Option α × Ledger α :=
  (ledger.holder now, ledger.apply now op)

/-- No two leases overlap. -/
def Disjoint (ledger : Ledger α) : Prop := ledger.Pairwise fun a b => a.stop ≤ b.start

variable {ledger : Ledger α}

/-- Nobody holds the lease if all that were granted have ended. -/
theorem holder_eq_none : ledger.holder now = none ↔ ∀ lease ∈ ledger, lease.stop ≤ now := by
  simp only [holder, Option.map_eq_none_iff, List.find?_eq_none, decide_eq_true_eq, Nat.not_lt]

/-- **Leases do not overlap**, whatever holders do. -/
theorem disjoint_apply (h : ledger.Disjoint) (op : LeaseOp α) : (ledger.apply now op).Disjoint := by
  cases op with
  | acquire holder lasts =>
    rw [apply]
    split_ifs with hfree
    · -- the new lease starts when all others have ended
      refine List.pairwise_append.mpr ⟨h, List.pairwise_singleton _ _, fun a ha b hb => ?_⟩
      rw [List.mem_singleton.mp hb]
      exact holder_eq_none.mp (Option.isNone_iff_eq_none.mp hfree) a ha
    · exact h
  | release =>
    refine List.pairwise_map.mpr (h.imp fun {a b} hle => ?_)
    exact Nat.le_trans (Nat.min_le_left a.stop now) hle
  | look => exact h

end Ledger

/-- A register that shows the holder of the lease, from an instant on. -/
def Granted (now : Nat) (r : Option (Held α)) (ledger : Ledger α) : Prop :=
  ∀ later, now ≤ later → (visible later r).map Held.value = ledger.holder later

/-- **One step**: the register holds what the ledger says, and does so again. -/
theorem Granted.step_eq {r : Option (Held α)} {ledger : Ledger α} (h : Granted now r ledger)
    (op : LeaseOp α) :
    (step now op.op r).1.map Held.value = (Ledger.step now op ledger).1 ∧
      Granted now (step now op.op r).2 (Ledger.step now op ledger).2 := by
  have hnow := h now (Nat.le_refl now)
  refine ⟨hnow, fun later hlater => ?_⟩
  have hkept : (visible later (visible now r)).map Held.value = ledger.holder later := by
    rw [visible_visible hlater, h later hlater]
  cases op with
  | acquire holder lasts =>
    show (visible later (if !(visible now r).isSome then _ else _)).map Held.value =
      Ledger.holder later (if (ledger.holder now).isNone then _ else _)
    rw [← hnow]
    cases hvisible : visible now r with
    | some held =>
      rw [hvisible] at hkept
      exact hkept
    | none =>
      -- all earlier leases have ended, so only the new one counts
      have hended : ledger.find? (fun lease => later < lease.stop) = none := by
        rw [hvisible] at hnow
        refine List.find?_eq_none.mpr fun lease hlease => ?_
        have hstop := Ledger.holder_eq_none.mp hnow.symm lease hlease
        simpa using Nat.le_trans hstop hlater
      show (visible later (some (⟨holder, some (now + lasts)⟩ : Held α))).map Held.value =
        Ledger.holder later (ledger ++ [⟨holder, now, now + lasts⟩])
      rw [Ledger.holder, List.find?_append, hended, Option.none_or, List.find?_singleton,
        visible_some]
      by_cases hends : later < now + lasts <;> simp [Held.lives, hends]
  | release =>
    show none = Ledger.holder later (ledger.map _)
    refine (Ledger.holder_eq_none.mpr fun lease hlease => ?_).symm
    obtain ⟨lease', -, rfl⟩ := List.mem_map.mp hlease
    exact Nat.le_trans (Nat.min_le_right lease'.stop now) hlater
  | look => exact hkept

end Register
