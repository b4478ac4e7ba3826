import BoxScript.Run

/-!
# The tasks of a run

A run comes by many tasks, each on the machine as it is by then. `visits` lists these tasks with
their machines in the order in which they come up, up to the given fuel, whether the run ends or
not. What a task comes to is a plan, and `Plan.machines` lists the machines that it passes through.
What holds of all of these holds at every point of every run.
-/

set_option autoImplicit false

namespace BoxScript

/-- A task that a run comes by, and the machine at that point. -/
structure Visit where
  task : Task
  machine : Machine

/-- The tasks that a plan asks for itself. -/
def Plan.asked {α : Type} (evaluator : Evaluator) : Plan α → Machine → List Visit
  | done _, _ => []
  | act step next, machine =>
    match step machine with
    | .ok result machine => (next result).asked evaluator machine
    | .error _ _ => []
  | ask task next, machine =>
    ⟨task, machine⟩ ::
      match evaluator task machine with
      | .ok result machine => (next result).asked evaluator machine
      | .error _ _ => []

/-- The machines that a plan passes through: before and after each of its steps and tasks. -/
def Plan.machines {α : Type} (evaluator : Evaluator) : Plan α → Machine → List Machine
  | done _, machine => [machine]
  | act step next, machine =>
    machine :: match step machine with
      | .ok result machine => (next result).machines evaluator machine
      | .error _ machine => [machine]
  | ask task next, machine =>
    machine :: match evaluator task machine with
      | .ok result machine => (next result).machines evaluator machine
      | .error _ machine => [machine]

/-- The tasks that come up while a task is evaluated, itself included. -/
def visits (notes : Annotations) : Nat → Task → Machine → List Visit
  | 0, task, machine => [⟨task, machine⟩]
  | fuel + 1, task, machine =>
    ⟨task, machine⟩ ::
      ((clause notes task).asked (evaluate notes fuel) machine).flatMap fun visit =>
        visits notes fuel visit.task visit.machine

/-- The tasks that come up while a program runs. -/
def Program.visits (program : Program) (notes : Annotations) (fuel : Nat) (machine : Machine) :
    List Visit :=
  match Eval.start notes program machine with
  | .ok root machine => BoxScript.visits notes fuel (.sequence root program.body) machine
  | .error _ _ => []

/-- A task that is run by itself is all that is asked for. -/
theorem Plan.asked_run_eq (evaluator : Evaluator) (task : Task) (machine : Machine) :
    (run task).asked evaluator machine = [⟨task, machine⟩] := by
  simp only [run, asked]
  split <;> rfl

/-- The plan of a body that is no block. -/
theorem Clause.body_of_alone (notes : Annotations) (frame : FrameId) {s : Stmt}
    (noBlock : ∀ b, s ≠ .block b) : body notes frame s = (do
      let frame ← Eval.enter notes frame [s]
      Plan.run (.sequence frame [s])) := by
  cases s with
  | block b => exact absurd rfl (noBlock b)
  | _ => rfl

theorem mem_visits_cases {notes : Annotations} {fuel : Nat} {task : Task} {machine : Machine}
    {visit : Visit} (member : visit ∈ visits notes fuel task machine) :
    visit = ⟨task, machine⟩ ∨ ∃ less asked, fuel = less + 1 ∧
      asked ∈ (clause notes task).asked (evaluate notes less) machine ∧
      visit ∈ visits notes less asked.task asked.machine := by
  cases fuel with
  | zero => exact .inl (List.mem_singleton.mp member)
  | succ fuel =>
    rcases List.mem_cons.mp member with here | inner
    · exact .inl here
    · obtain ⟨asked, found, later⟩ := List.mem_flatMap.mp inner
      exact .inr ⟨fuel, asked, rfl, found, later⟩

end BoxScript
