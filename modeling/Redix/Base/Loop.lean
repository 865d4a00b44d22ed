import Mathlib.Logic.Relation
import Mathlib.Order.WellFounded

/-!
# Loops that may fault

The body of a loop takes a state to the next state or to a result, or does what it must not do
(`none`).

- `Variant`: an invariant under which the body does not fault and which each turn keeps, with a
  measure that each turn makes smaller;
- `Variant.of_reaches`: then the invariant holds wherever the turns lead;
- `Variant.ends`: and the loop comes to an end, with the value of any function that unrolls as
  the loop does.
-/

universe u v w

namespace Loop

variable {σ : Type u} {ρ : Type v} {μ : Type w}

/-- One turn. -/
def Turn (body : σ → Option (σ ⊕ ρ)) (s s' : σ) : Prop := body s = some (.inl s')

/-- The states that turns lead to. -/
def Reaches (body : σ → Option (σ ⊕ ρ)) : σ → σ → Prop := Relation.ReflTransGen (Turn body)

/-- The loop comes to an end with a result. -/
def Ends (body : σ → Option (σ ⊕ ρ)) (s : σ) (r : ρ) : Prop :=
  ∃ last, Reaches body s last ∧ body last = some (.inr r)

/-- An invariant and a measure that show that a loop comes to an end without a fault. -/
structure Variant [LT μ] (body : σ → Option (σ ⊕ ρ)) (inv : σ → Prop) (measure : σ → μ) :
    Prop where
  safe : ∀ {s}, inv s → body s ≠ none
  keeps : ∀ {s s'}, inv s → Turn body s s' → inv s'
  decreases : ∀ {s s'}, inv s → Turn body s s' → measure s' < measure s

namespace Variant

variable [Preorder μ] {body : σ → Option (σ ⊕ ρ)} {inv : σ → Prop} {measure : σ → μ} {s s' : σ}

/-- The invariant holds in every state that the loop reaches. -/
theorem of_reaches (h : Variant body inv measure) (hs : inv s) (hreach : Reaches body s s') :
    inv s' := by
  induction hreach with
  | refl => exact hs
  | tail _ hturn ih => exact h.keeps ih hturn

/-- **The loop ends**, with what a function that unrolls alike gives. -/
theorem ends [WellFoundedLT μ] (h : Variant body inv measure) {f : σ → ρ}
    (hf : ∀ {s next}, inv s → body s = some next → f s = next.elim f id) (hs : inv s) :
    Ends body s (f s) := by
  induction hm : measure s using WellFoundedLT.induction generalizing s with
  | ind m ih =>
    cases hbody : body s with
    | none => exact absurd hbody (h.safe hs)
    | some next =>
      cases next with
      | inl s' =>
        have hlt : measure s' < m := hm ▸ h.decreases hs hbody
        obtain ⟨last, hreach, hlast⟩ := ih (measure s') hlt (h.keeps hs hbody) rfl
        refine ⟨last, .head hbody hreach, ?_⟩
        rw [hf hs hbody]
        exact hlast
      | inr r =>
        refine ⟨s, .refl, ?_⟩
        rw [hf hs hbody]
        exact hbody

end Variant

end Loop
