import Redix.Base.Simulation

/-!
# What can be observed of a machine

A machine answers inputs, each at an instant, and the instants do not run backwards. Of two
states all that can be observed is what the machine answers from there on
(`Indistinguishable`).

- `Indistinguishable.step`: what cannot be told apart answers alike, and cannot be told apart
  afterwards;
- `indistinguishable_of_bisimulation`: to see that states cannot be told apart, it is enough
  to relate them in a way that time and the steps keep;
- `refines`: a party whose inputs are steps of a reference is answered as by the reference,
  if the inputs of others, which may come between, leave what it relates to as it is.
-/

universe u

namespace Observation

variable {τ ι κ σ ρ ο : Type u} [LE τ] {machine : τ → ι → σ → ο × σ} {t t' : τ} {s s' : σ}

/-- Inputs from an instant on. -/
def From : τ → List (τ × ι) → Prop
  | _, [] => True
  | t, input :: rest => t ≤ input.1 ∧ From input.1 rest

/-- What a machine answers to inputs one after another. -/
def answers (machine : τ → ι → σ → ο × σ) (inputs : List (τ × ι)) (s : σ) : List ο :=
  (runSteps (fun input => machine input.1 input.2) inputs s).1

/-- From `t` on, the two states are answered alike, whatever the inputs are. -/
def Indistinguishable (machine : τ → ι → σ → ο × σ) (t : τ) (s s' : σ) : Prop :=
  ∀ inputs, From t inputs → answers machine inputs s = answers machine inputs s'

theorem Indistinguishable.symm (h : Indistinguishable machine t s s') :
    Indistinguishable machine t s' s := fun inputs hfrom => (h inputs hfrom).symm

/-- **One step** of states that cannot be told apart. -/
theorem Indistinguishable.step (h : Indistinguishable machine t s s') (ht : t ≤ t') (i : ι) :
    (machine t' i s).1 = (machine t' i s').1 ∧
      Indistinguishable machine t' (machine t' i s).2 (machine t' i s').2 :=
  ⟨(List.cons.inj (h [(t', i)] ⟨ht, trivial⟩)).1,
    fun inputs hfrom => (List.cons.inj (h ((t', i) :: inputs) ⟨ht, hfrom⟩)).2⟩

/-- **Bisimulation.** What is related at an instant stays related as time goes by, and a step
of related states gives the same answer and leaves related states. -/
theorem indistinguishable_of_bisimulation {R : τ → σ → σ → Prop}
    (hlater : ∀ {t t' s s'}, t ≤ t' → R t s s' → R t' s s')
    (hstep : ∀ {t s s'} (i : ι), R t s s' →
      (machine t i s).1 = (machine t i s').1 ∧ R t (machine t i s).2 (machine t i s').2)
    (h : R t s s') : Indistinguishable machine t s s' := by
  intro inputs
  -- one input at a time, from the states that the last one left
  induction inputs generalizing t s s' with
  | nil => exact fun _ => rfl
  | cons input rest ih =>
    rintro ⟨ht, hfrom⟩
    obtain ⟨hanswer, hafter⟩ := hstep input.2 (hlater ht h)
    exact List.cons_eq_cons.mpr ⟨hanswer, ih hafter hfrom⟩

/-! ## Parties -/

/-- What a machine answers to the inputs of one party, those that `op` reads as something. -/
def answersTo (op : ι → Option κ) (machine : τ → ι → σ → ο × σ) : List (τ × ι) → σ → List ο
  | [], _ => []
  | (t, i) :: rest, s =>
    let (answer, s) := machine t i s
    if (op i).isSome then answer :: answersTo op machine rest s else answersTo op machine rest s

/-- The inputs of one party. -/
def project (op : ι → Option κ) (inputs : List (τ × ι)) : List (τ × κ) :=
  inputs.filterMap fun input => (op input.2).map fun k => (input.1, k)

/-- The state after inputs. -/
def after (machine : τ → ι → σ → ο × σ) (inputs : List (τ × ι)) (s : σ) : σ :=
  (runSteps (fun input => machine input.1 input.2) inputs s).2

omit [LE τ] in
/-- What each step keeps, a run keeps. -/
theorem after_keeps {P : σ → Prop} (hstep : ∀ t i s, P s → P (machine t i s).2)
    (inputs : List (τ × ι)) (h : P s) : P (after machine inputs s) := by
  induction inputs generalizing s with
  | nil => exact h
  | cons input rest ih => exact ih (hstep input.1 input.2 s h)

/-- **Refinement for one party.** Let a relation to the states of a reference stay as time goes
by. Let an input of the party be a step of the reference, with the same answer, and let any
other input leave the state of the reference. Then the party is answered as by the reference
alone, and the states are related in the end. -/
theorem refines {R : τ → σ → ρ → Prop} {reference : τ → κ → ρ → ο × ρ} {op : ι → Option κ}
    {allowed : τ → ι → Prop} (hlater : ∀ {t t' s r}, t ≤ t' → R t s r → R t' s r)
    (hown : ∀ {t s r i k}, allowed t i → op i = some k → R t s r →
      (machine t i s).1 = (reference t k r).1 ∧ R t (machine t i s).2 (reference t k r).2)
    (hother : ∀ {t s r i}, allowed t i → op i = none → R t s r → R t (machine t i s).2 r)
    {inputs : List (τ × ι)} (hfrom : From t inputs)
    (hallowed : ∀ input ∈ inputs, allowed input.1 input.2) {r : ρ} (h : R t s r) :
    answersTo op machine inputs s = answers reference (project op inputs) r ∧
      ∀ {last}, t ≤ last → (∀ input ∈ inputs, input.1 ≤ last) →
        R last (after machine inputs s) (after reference (project op inputs) r) := by
  induction inputs generalizing t s r with
  | nil => exact ⟨rfl, fun ht _ => hlater ht h⟩
  | cons input rest ih =>
    obtain ⟨now, i⟩ := input
    obtain ⟨ht, hfrom⟩ := hfrom
    obtain ⟨hfirst, hrest⟩ := List.forall_mem_cons.mp hallowed
    have hbefore {last : τ} (hle : ∀ input ∈ (now, i) :: rest, input.1 ≤ last) :
        now ≤ last ∧ ∀ input ∈ rest, input.1 ≤ last := List.forall_mem_cons.mp hle
    rw [answersTo]
    -- an own input is a step of the reference, any other is none
    cases hop : op i with
    | some k =>
      have hproject : project op ((now, i) :: rest) = (now, k) :: project op rest := by
        rw [project, List.filterMap_cons_some (b := (now, k)) (by rw [hop]; rfl)]
        rfl
      obtain ⟨hanswer, hafter⟩ := hown hfirst hop (hlater ht h)
      obtain ⟨hanswers, hfinal⟩ := ih hfrom hrest hafter
      rw [hproject]
      refine ⟨List.cons_eq_cons.mpr ⟨hanswer, hanswers⟩, fun _ hle => ?_⟩
      exact hfinal (hbefore hle).1 (hbefore hle).2
    | none =>
      have hproject : project op ((now, i) :: rest) = project op rest := by
        rw [project, List.filterMap_cons_none (by rw [hop]; rfl)]
        rfl
      obtain ⟨hanswers, hfinal⟩ := ih hfrom hrest (hother hfirst hop (hlater ht h))
      rw [hproject]
      exact ⟨hanswers, fun _ hle => hfinal (hbefore hle).1 (hbefore hle).2⟩

end Observation
