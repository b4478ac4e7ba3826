import BoxScript.Proofs.Running.CurrentFrame

/-!
# Activations

Blocks, bodies that are no blocks and calls are entered, and what is entered is an activation until
it ends. Activations and instances of boxes are numbered in the order in which they begin, after the
frame of the builtins. `passages` lists the tasks that a run comes by together with the activation
that goes on, the one that began last of those that have not ended, and with the task that asks for
each. Nothing of this is taken from the frames that tasks name, nor from what functions and boxes
remember. Without activations the passages are the visits (`Program.map_visit_passages`).

A task is in the frame that was made for the activation that goes on (`Program.here_of_passage`).
-/

set_option autoImplicit false

namespace BoxScript

/-- A task that a run comes by: the activation that goes on, the task that asks for this one unless
it is the first, and the machine at that point. -/
structure Passage where
  activation : FrameId
  asker : Option Task
  task : Task
  machine : Machine

namespace Passage

def visit (passage : Passage) : Visit := ⟨passage.task, passage.machine⟩

/-- The number of what the task begins, if it begins an activation or an instance. -/
def next (passage : Passage) : FrameId := passage.machine.heap.frames.size

/-- The activation that goes on while the task is evaluated. -/
def inside (passage : Passage) : FrameId :=
  if passage.task.enters then passage.next else passage.activation

/-- What the task asks for. -/
def ask (passage : Passage) (visit : Visit) : Passage :=
  ⟨passage.inside, some passage.task, visit.task, visit.machine⟩

end Passage

/-- The tasks that come up while a task is evaluated, itself included. -/
def passages (notes : Annotations) : Nat → Passage → List Passage
  | 0, passage => [passage]
  | fuel + 1, passage =>
    passage :: ((clause notes passage.task).asked (evaluate notes fuel) passage.machine).flatMap
      fun visit => passages notes fuel (passage.ask visit)

/-- The tasks that come up while a program runs. -/
def Program.passages (program : Program) (notes : Annotations) (fuel : Nat) (machine : Machine) :
    List Passage :=
  match Eval.start notes program machine with
  | .ok root after =>
    BoxScript.passages notes fuel ⟨root, none, .sequence root program.body, after⟩
  | .error _ _ => []

variable {notes : Annotations} {fuel : Nat}

theorem map_visit_passages (passage : Passage) :
    (passages notes fuel passage).map Passage.visit =
      visits notes fuel passage.task passage.machine := by
  induction fuel generalizing passage with
  | zero => rfl
  | succ fuel ih =>
    rw [passages, visits, List.map_cons, List.map_flatMap]
    exact congrArg _ (List.flatMap_congr fun visit _ => ih (passage.ask visit))

/-- The passages of a program are its visits, with activations. -/
theorem Program.map_visit_passages (program : Program) (notes : Annotations) (fuel : Nat)
    (machine : Machine) :
    (program.passages notes fuel machine).map Passage.visit =
      program.visits notes fuel machine := by
  unfold passages visits
  cases Eval.start notes program machine with
  | ok root after => exact BoxScript.map_visit_passages _
  | error halt after => rfl

/-- Each visit is a passage. -/
theorem Program.exists_passage {program : Program} {machine : Machine} {visit : Visit}
    (visited : visit ∈ program.visits notes fuel machine) :
    ∃ passage ∈ program.passages notes fuel machine, passage.visit = visit := by
  rw [← map_visit_passages] at visited
  exact List.mem_map.mp visited

theorem head?_passages (passage : Passage) :
    (passages notes fuel passage).head? = some passage := by
  cases fuel <;> rfl

theorem mem_passages_self (passage : Passage) : passage ∈ passages notes fuel passage := by
  cases fuel <;> exact List.mem_cons_self

theorem mem_passages_cases {passage inner : Passage}
    (passed : inner ∈ passages notes fuel passage) :
    inner = passage ∨ ∃ less visit, fuel = less + 1 ∧
      visit ∈ (clause notes passage.task).asked (evaluate notes less) passage.machine ∧
      inner ∈ passages notes less (passage.ask visit) := by
  cases fuel with
  | zero => exact .inl (List.mem_singleton.mp passed)
  | succ fuel =>
    rcases List.mem_cons.mp passed with here | later
    · exact .inl here
    · obtain ⟨visit, asked, found⟩ := List.mem_flatMap.mp later
      exact .inr ⟨fuel, visit, rfl, asked, found⟩

/-! ## Tasks are in the frame of the activation -/

/-- A call asks for the body of the function, in the frame that it has made. -/
theorem Clause.task_of_asked_invoke {decl : FunctionDecl} {outer : FrameId} {arguments : List Value}
    {span : Span} {evaluator : Evaluator} {machine : Machine} {visit : Visit}
    (asked : visit ∈ (invoke notes decl outer arguments span).asked evaluator machine) :
    visit.task = .block machine.heap.frames.size decl.body := by
  unfold invoke at asked
  split at asked
  · obtain ⟨frame, after, ran, here⟩ := Plan.asked_step_bind asked
    rw [Eval.enterCall_eq] at ran
    cases ran
    rcases Plan.asked_run_bind here with rfl | ⟨_, _, _, none⟩
    · rfl
    · cases none
  · rw [Plan.asked_step] at asked
    cases asked

namespace Task

/-- A task that enters a frame makes it first, and asks for tasks in this frame. -/
theorem here_of_enters {task : Task} (enters : task.enters = true) {evaluator : Evaluator}
    {machine : Machine} {visit : Visit}
    (asked : visit ∈ (clause notes task).asked evaluator machine) :
    visit.task.Here machine.heap.frames.size := by
  have entered : ∀ {outer : FrameId} {body : List Stmt},
      visit ∈ (do
        let frame ← Eval.enter notes outer body
        Plan.run (.sequence frame body) : Plan Completion).asked evaluator machine →
      visit.task.Here machine.heap.frames.size := by
    intro outer body asked
    obtain ⟨frame, after, ran, here⟩ := Plan.asked_step_bind asked
    obtain ⟨entries, id, made, _⟩ := Eval.enter_eq notes machine outer body
    cases made.symm.trans ran
    cases Plan.asked_run here
    exact here_of_frame rfl
  cases task with
  | block outer b => exact entered asked
  | invoke decl outer arguments span =>
    rw [Clause.task_of_asked_invoke asked]
    exact here_of_frame rfl
  | body outer s =>
    cases s with
    | block b => cases enters
    | _ => exact entered asked
  | _ => cases enters

end Task

/-- What a task asks for is in the frame of the activation, if the task itself is. -/
theorem Passage.here_ask {passage : Passage} (here : passage.task.Here passage.activation)
    {visit : Visit}
    (asked : visit ∈ (clause notes passage.task).asked (evaluate notes fuel) passage.machine) :
    visit.task.Here passage.inside := by
  unfold inside
  cases enters : passage.task.enters with
  | true => exact Task.here_of_enters enters asked
  | false =>
    obtain ⟨blames, keeps⟩ := Task.keeps_here notes here enters
    exact (keeps.asked (keeps_evaluate notes fuel) asked).1

theorem here_of_passages {passage inner : Passage} (here : passage.task.Here passage.activation)
    (passed : inner ∈ passages notes fuel passage) : inner.task.Here inner.activation := by
  induction fuel generalizing passage with
  | zero =>
    cases List.mem_singleton.mp passed
    exact here
  | succ fuel ih =>
    rcases mem_passages_cases passed with rfl | ⟨less, visit, same, asked, found⟩
    · exact here
    · cases same
      exact ih (Passage.here_ask here asked) found

/-- The frame that a task names is the one of the activation that goes on. -/
theorem Program.here_of_passage {program : Program} {machine : Machine} {passage : Passage}
    (passed : passage ∈ program.passages notes fuel machine) :
    passage.task.Here passage.activation := by
  unfold passages at passed
  split at passed
  · exact here_of_passages (Task.here_of_frame rfl) passed
  · cases passed

end BoxScript
