import BoxScript.Proofs.Running.Programs

/-!
# Soundness of the analysis

What is promised of a source that is checked without errors. A run of its program does not end with
a fault, unless a bare name means a method that its receiver does not have, or the output was
refused (`visit_of_reported_fault`). At each point of a run the heap conforms to a world: what is
stored has the shape of the type of the place where it is stored. The world grows while a task is
evaluated, and an expression gives a value of the shape of its type (`conforms_at_visits`).
-/

set_option autoImplicit false
set_option maxRecDepth 100000

namespace BoxScript

/-! ## Faults -/

/-- The fault that a run ended with, and where. -/
def Outcome.fault? : Outcome → Option (Fault × Span)
  | .failed (.aborted ⟨.fault reason, span⟩) => some (reason, span)
  | _ => none

theorem Outcome.fault?_eq_some {outcome : Outcome} {reason : Fault} {span : Span}
    (fault : outcome.fault? = some (reason, span)) :
    outcome = .failed (.aborted ⟨.fault reason, span⟩) := by
  unfold fault? at fault
  split at fault
  · cases fault
    rfl
  · cases fault

/-- How a program ended that was found to have failed. -/
theorem program_of_runProgram {fuel : Nat} {notes : Annotations} {program : Program}
    {machine after : Machine} {error : RuntimeError}
    (ended : runProgram fuel notes program machine = (.failed (.aborted error), after)) :
    Eval.program notes fuel program machine = .error (.failed error) after := by
  unfold runProgram at ended
  split at ended
  · cases ended
  · rename_i stop middle same
    cases ended
    exact same
  · cases ended

namespace Program

variable {file : String} {source : List Char} {program : Program} {notes : Annotations} {fuel : Nat}
    {output : Sink}

/-- A fault that a run of a checked source reports was raised at one of its tasks: by a bare name
that means a method, of which its receiver has none, or by a call of a builtin function whose output
was refused. -/
theorem visit_of_reported_fault (checked : checkSource file source = .ok (program, notes))
    {reason : Fault} {span : Span}
    (fault : (runProgram fuel notes program (.fresh output)).1.fault? = some (reason, span)) :
    ∃ visit ∈ program.visits notes fuel (.fresh output),
      (∃ less, evaluate notes less visit.task visit.machine =
        .error (.failed ⟨.fault reason, span⟩) (runProgram fuel notes program (.fresh output)).2) ∧
      ((∃ frame mark name, visit.task = .expr frame (.symbol mark name) ∧
          Eval.isMethod notes mark.id = true ∧ reason = .noMethod name) ∨
        ∃ function arguments, visit.task = .call (.builtin function) arguments span ∧
          reason = .outputRefused Sink.refusal) := by
  have accepted := accepted_of_checkSource checked
  have ended := program_of_runProgram (Prod.ext (Outcome.fault?_eq_some fault) rfl)
  obtain ⟨visit, visited, excused, less, raised⟩ := visit_of_fault accepted ended rfl
  refine ⟨visit, visited, ⟨less, raised⟩, ?_⟩
  unfold Excused at excused
  split at excused
  · rename_i _ frame mark name task
    obtain ⟨method, same⟩ := excused
    cases same
    exact .inl ⟨frame, mark, name, task, method, rfl⟩
  · rename_i _ function arguments _ task
    cases excused
    exact .inr ⟨function, arguments, task, rfl⟩
  · exact excused.elim

/-- A line that a full output refuses. -/
theorem visit_of_refused_line :
    ∃ program notes span, checkSource "main.sigh" "print(\"a\")".toList = .ok (program, notes) ∧
      (runProgram 20 notes program (.fresh ⟨"", some 0⟩)).1.fault? =
        some (.outputRefused Sink.refusal, span) ∧
      ∃ visit ∈ program.visits notes 20 (.fresh ⟨"", some 0⟩), ∃ function arguments,
        visit.task = .call (.builtin function) arguments span := by
  have passed : passes "main.sigh" "print(\"a\")".toList (fun program notes =>
      (runProgram 20 notes program (.fresh ⟨"", some 0⟩)).1.fault?.map Prod.fst =
        some (.outputRefused Sink.refusal)) = true := by
    decide +kernel
  obtain ⟨program, notes, checked, ended⟩ := checked_of_passes passed
  obtain ⟨⟨reason, span⟩, fault, rfl⟩ := Option.map_eq_some_iff.mp (of_decide_eq_true ended)
  obtain ⟨visit, visited, _, cause⟩ := visit_of_reported_fault checked fault
  refine ⟨program, notes, span, checked, fault, visit, visited, ?_⟩
  rcases cause with ⟨_, _, name, _, _, other⟩ | ⟨function, arguments, task, _⟩
  · cases other
  · exact ⟨function, arguments, task⟩

end Program

/-! ## Stored values -/

/-- What is known of the result of a task: that of an expression has the shape of its type. -/
def Task.Delivers (known : Analysis) (w : World) : (task : Task) → task.Result → Prop
  | .expr _ e, value => w.Yields known e value
  | _, _ => True

theorem Admits.delivers {known : Analysis} {w later : World} {task : Task}
    {promise : World → task.Result → Prop} (admits : Admits known w task promise)
    {result : task.Result} (kept : promise later result) : task.Delivers known later result := by
  cases admits with
  | expr home walked => exact kept
  | _ => trivial

namespace Program

variable {file : String} {source : List Char} {program : Program} {notes : Annotations}

theorem safe_program (accepted : (program.analysis notes).Accepted) (fuel : Nat) :
    Eval.Safe (program.analysis notes) (fun _ => True) ⟨[], [], []⟩
      (Eval.program notes fuel program) fun _ _ => True := by
  refine Eval.safe_bind (Eval.safe_start accepted) fun w root _ home => ?_
  have admits : Admits (program.analysis notes) w (.sequence root program.body) _ :=
    .sequence home Nat.zero_lt_one (Nat.lt_succ_self 1) (Walk.body_program program.body).owned
  exact Eval.safe_bind (evaluate_sound accepted fuel admits) fun _ _ _ _ => Eval.safe_pure trivial

/-- What is stored in the heap has the shape of the type of its place: at the end of a run, at each
task that the run comes by, between any two steps of the plan of such a task, and after its
evaluation, however it ends. What an expression gives has the shape of its type. -/
theorem conforms_at_visits (checked : checkSource file source = .ok (program, notes)) (fuel : Nat)
    (output : Sink) :
    (∃ w : World, w.Types (program.analysis notes)
      (runProgram fuel notes program (.fresh output)).2.heap) ∧
    ∀ visit ∈ program.visits notes fuel (.fresh output),
      ∃ w : World, w.Types (program.analysis notes) visit.machine.heap ∧
        ∀ less,
          (∀ machine ∈ (clause notes visit.task).machines (evaluate notes less) visit.machine,
            ∃ later, w ≤ later ∧ later.Types (program.analysis notes) machine.heap) ∧
          Eval.Ends (program.analysis notes) (fun _ => True) w
            (fun later result => visit.task.Delivers (program.analysis notes) later result)
            (evaluate notes less visit.task visit.machine) := by
  have accepted := accepted_of_checkSource checked
  constructor
  · have ends := safe_program accepted fuel (.fresh output) World.types_empty
    unfold runProgram
    change Eval.Ends _ _ _ _ ((Eval.program notes fuel program).run (.fresh output)) at ends
    split
    · rename_i value after ran
      rw [ran] at ends
      obtain ⟨w, _, types, _⟩ := ends
      exact ⟨w, types⟩
    · rename_i error after ran
      rw [ran] at ends
      obtain ⟨⟨w, _, types⟩, _⟩ := ends
      exact ⟨w, types⟩
    · rename_i after ran
      rw [ran] at ends
      obtain ⟨⟨w, _, types⟩, _⟩ := ends
      exact ⟨w, types⟩
  · intro visit visited
    obtain ⟨w, promise, types, admits⟩ := admits_of_visits accepted visited
    refine ⟨w, types, fun less => ⟨fun machine passed => ?_, ?_⟩⟩
    · exact (safe_clause accepted admits).machines (evaluate_sound accepted less) types passed
    · exact (evaluate_sound accepted less admits visit.machine types).mono (le_refl w)
        fun _ _ _ kept => admits.delivers kept

/-- Whether an evaluation gave a Float. -/
def givesFloat : EStateM.Result Halt Machine Value → Bool
  | .ok (.float _) _ => true
  | _ => false

theorem ran_of_givesFloat {result : EStateM.Result Halt Machine Value}
    (gives : givesFloat result = true) : ∃ value after, result = .ok (.float value) after := by
  unfold givesFloat at gives
  split at gives
  · exact ⟨_, _, rfl⟩
  · cases gives

/-- A variable of type Float that starts with an Int. -/
theorem conforms_at_converted_variable :
    ∃ program notes frame e machine value after,
      checkSource "main.sigh" "var a: Float = 1; a".toList = .ok (program, notes) ∧
      ⟨.expr frame e, machine⟩ ∈ program.visits notes 20 (.fresh .unlimited) ∧
      evaluate notes 20 (.expr frame e) machine = .ok (.float value) after ∧
      ∃ w : World, w.Types (program.analysis notes) after.heap ∧
        w.Yields (program.analysis notes) e (.float value) := by
  have passed : comesBy "main.sigh" "var a: Float = 1; a".toList 20 (fun notes frame e machine =>
      givesFloat (evaluate notes 20 (.expr frame e) machine)) = true := by
    decide +kernel
  obtain ⟨program, notes, frame, e, machine, checked, visited, gives⟩ := visited_of_comesBy passed
  obtain ⟨value, after, ran⟩ := ran_of_givesFloat gives
  obtain ⟨w, _, ends⟩ := (conforms_at_visits checked 20 .unlimited).2 _ visited
  obtain ⟨_, delivered⟩ := ends 20
  rw [ran] at delivered
  obtain ⟨later, _, types, yields⟩ := delivered
  exact ⟨program, notes, frame, e, machine, value, after, checked, visited, ran, later, types,
    yields⟩

end Program

end BoxScript
