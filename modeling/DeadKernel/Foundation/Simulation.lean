import Mathlib.Data.List.Basic

/-! Machines that answer each input, and simulations between them. -/

namespace Simulation

universe u

variable {Input Output State State' : Type u}

/-- What a machine does with one input: its answer and its next state. -/
abbrev Step (Input Output State : Type u) := Input → State → Output × State

/-- The answers to a sequence of inputs, and the last state. -/
def run (step : Step Input Output State) : List Input → State → List Output × State
  | [], state => ([], state)
  | input :: rest, state =>
      let (answer, next) := step input state
      let (answers, last) := run step rest next
      (answer :: answers, last)

@[simp] theorem run_nil (step : Step Input Output State) (state : State)
    : run step [] state = ([], state) := rfl

@[simp] theorem run_cons (step : Step Input Output State) (input : Input) (rest : List Input)
    (state : State)
    : run step (input :: rest) state
      = ((step input state).1 :: (run step rest (step input state).2).1,
        (run step rest (step input state).2).2) := rfl

/-- Related states give the same answer and stay related. -/
def Simulates (related : State → State' → Prop) (step : Step Input Output State)
    (step' : Step Input Output State')
    : Prop :=
  ∀ input state state', related state state'
    → (step input state).1 = (step' input state').1
      ∧ related (step input state).2 (step' input state').2

/-- Whole runs of a simulation answer alike, by induction over the inputs. -/
theorem Simulates.run {related : State → State' → Prop} {step : Step Input Output State}
    {step' : Step Input Output State'} (simulates : Simulates related step step')
    (inputs : List Input) {state : State} {state' : State'} (start : related state state')
    : (Simulation.run step inputs state).1 = (Simulation.run step' inputs state').1
      ∧ related (Simulation.run step inputs state).2 (Simulation.run step' inputs state').2 := by
  induction inputs generalizing state state' with
  | nil => exact ⟨rfl, start⟩
  | cons input rest ih =>
      obtain ⟨answer, next⟩ := simulates input state state' start
      obtain ⟨answers, last⟩ := ih next
      refine ⟨?_, last⟩
      rw [run_cons, run_cons, answer, answers]

end Simulation
