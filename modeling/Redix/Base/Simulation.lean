import Mathlib.Data.List.Basic

/-!
# Runs and simulations

A run takes steps one after another and collects what each of them answers. A simulation
(`Simulates`) relates the states of an implementation to those of a reference, such that one
step of the one is one step of the other, with the same answer up to how it is shown. By
`Simulates.run_eq`, whole runs are then related in the same way.
-/

universe u

/-- Steps one after another: the answers and the last state. -/
def runSteps {ι σ ο : Type u} (step : ι → σ → ο × σ) : List ι → σ → List ο × σ
  | [], s => ([], s)
  | i :: rest, s =>
    let (answer, s) := step i s
    let (answers, s) := runSteps step rest s
    (answer :: answers, s)

variable {ι κ σ τ ο ο' : Type u}

/-- Every step is answered. -/
theorem runSteps_length (step : ι → σ → ο × σ) (is : List ι) (s : σ) :
    (runSteps step is s).1.length = is.length := by
  induction is generalizing s with
  | nil => rfl
  | cons i rest ih => exact congrArg (· + 1) (ih _)

/-- A relation that each step of an implementation keeps, together with a step of the
reference that gives the same answer. -/
structure Simulates (step : ι → σ → ο × σ) (reference : κ → τ → ο' × τ) where
  /-- The steps that are simulated. -/
  valid : ι → Prop
  /-- The step of the reference. -/
  op : ι → κ
  /-- How the reference's answer is shown. -/
  shown : ο' → ο
  related : σ → τ → Prop
  step_eq : ∀ {i s t}, valid i → related s t →
    (step i s).1 = shown (reference (op i) t).1 ∧ related (step i s).2 (reference (op i) t).2

namespace Simulates

variable {step : ι → σ → ο × σ} {reference : κ → τ → ο' × τ}

/-- **Runs are simulated.** -/
theorem run_eq (sim : Simulates step reference) {is : List ι} (hvalid : ∀ i ∈ is, sim.valid i) :
    ∀ {s : σ} {t : τ}, sim.related s t →
      (runSteps step is s).1 = (runSteps reference (is.map sim.op) t).1.map sim.shown ∧
      sim.related (runSteps step is s).2 (runSteps reference (is.map sim.op) t).2 := by
  induction is with
  | nil => exact fun h => ⟨rfl, h⟩
  | cons i rest ih =>
    intro s t h
    obtain ⟨hfirst, hrest⟩ := List.forall_mem_cons.mp hvalid
    obtain ⟨hanswer, hafter⟩ := sim.step_eq hfirst h
    obtain ⟨hanswers, hlast⟩ := ih hrest hafter
    refine ⟨?_, hlast⟩
    show (step i s).1 :: (runSteps step rest (step i s).2).1 =
      sim.shown (reference (sim.op i) t).1 ::
        (runSteps reference (rest.map sim.op) (reference (sim.op i) t).2).1.map sim.shown
    rw [hanswer, hanswers]

end Simulates
