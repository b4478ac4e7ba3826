import BoxScript.Proofs.Typing.DistinctNames
import BoxScript.Proofs.Typing.Progress
import BoxScript.Proofs.Typing.StatementRules
import BoxScript.Proofs.Walking.Accepted

/-!
# The analysis decides the type system

A program is accepted if and only if it is well typed, and its annotations are then those that the
type system assigns to it (`Program.decides_type_system`).

What the analysis accepts is well typed because all its rules hold. For the other way, annotations
that the type system assigns are a store in which the effects of all rules are there. The solver
comes to the least such store, so what it finds is among these annotations; since no rule waits in
the end, each is attempted with the answers that it has in them, and completes without an error.
-/

set_option autoImplicit false
set_option maxRecDepth 100000

namespace BoxScript

theorem FactStore.known?_eq_some {facts : FactStore} {key : FactKey} {value : FactValue} :
    facts.known? key = some value ↔ facts.get? key = some (.known value) := by
  unfold known?
  rcases facts.get? key with _ | _ | _ <;> simp

namespace Program

variable {program : Program} {file : String} {source : List Char} {notes : Annotations}

/-- A program is well typed if all steps of the walk over it hold and none reports a duplicate
name. -/
theorem wellTyped_iff : program.WellTyped notes ↔ notes.symbols = program.symbols ∧
    (survey program.steps).errors = #[] ∧ Step.AllHold notes program.steps := by
  have walked : Step.AllHold notes program.steps ↔
      ∃ later, StmtsTyped notes 1 2 .program program.body later := by
    have inside := fun later =>
      @Walk.allHold_stmts notes program.body 1 2 later none .program .program
    simp only [steps, Walk.program, Step.allHold_cons, Step.holds_openScope, true_and,
      Step.allHold_append, Walk.allHold_hoist]
    constructor
    · intro holds
      exact ⟨_, (inside _).mp ⟨holds, rfl⟩⟩
    · rintro ⟨later, typed⟩
      exact ((inside later).mpr typed).1
  rw [errors_survey_iff, walked]
  constructor
  · rintro ⟨symbols, distinct, typed⟩
    exact ⟨symbols, distinct, typed⟩
  · rintro ⟨symbols, distinct, typed⟩
    exact ⟨symbols, distinct, typed⟩

/-- What the analysis accepts is well typed. -/
theorem wellTyped_of_analyze (read : readProgram file source = .ok program)
    (analyzed : analyze program = .ok notes) : program.WellTyped notes := by
  have accepted := accepted_of_analyze (nodup_of_readProgram read) analyzed
  obtain ⟨clean, _, _, rfl⟩ := analyze_eq_ok_iff.mp analyzed
  exact wellTyped_iff.mpr ⟨rfl, clean, fun step walked =>
    ⟨accepted.holds step walked, accepted.noted step walked⟩⟩

theorem WellTyped.holds (typed : program.WellTyped notes) {rule : Rule}
    (member : rule ∈ program.rules) : rule.Holds notes := by
  obtain ⟨_, _, holds⟩ := wellTyped_iff.mp typed
  obtain ⟨step, walked, collected⟩ := List.mem_flatMap.mp member
  exact (holds step walked).rules rule collected

/-- What the solver finds is among the annotations that the type system assigns. -/
theorem WellTyped.settled_within (typed : program.WellTyped notes)
    (read : readProgram file source = .ok program) :
    program.settled.2.facts.Within notes.facts := by
  obtain ⟨symbols, _, holds⟩ := wellTyped_iff.mp typed
  apply (settled_settled (nodup_of_readProgram read)).least
  · intro key slot found
    rw [start, FactStore.get?_setAll] at found
    split at found
    · rename_i value written
      cases found
      obtain ⟨step, walked, knows⟩ := List.mem_flatMap.mp (FactStore.mem_of_lastWrite? written)
      exact (holds step walked).facts _ knows
    · rw [FactStore.get?_empty] at found
      cases found
  · intro rule member
    exact symbols ▸ Rule.closed_of_holds (typed.holds member)

/-- No rule of a well typed program fails. -/
theorem WellTyped.errors_settled (typed : program.WellTyped notes)
    (read : readProgram file source = .ok program) : program.settled.2.errors = [] := by
  have errors := (settled_settled (nodup_of_readProgram read)).errors
  have scripted := (program.independent (nodup_of_readProgram read) program.symbols).scripted
  have quiet : (program.rules.flatMap fun rule =>
      (rule.attempt program.symbols program.settled.2.facts).errors) = [] := by
    rw [List.flatMap_eq_nil_iff]
    intro rule member
    obtain ⟨owes, confined⟩ := confined_filled read rule member
    obtain ⟨writes, completed, _⟩ := typed.holds member
    rw [typed.symbols, (scripted rule member).attempt_eq (typed.settled_within read)
      confined.not_waits] at completed
    rw [completed]
    rfl
  rw [quiet] at errors
  exact errors.eq_nil

/-- What is well typed is accepted. -/
theorem WellTyped.analyze_eq (typed : program.WellTyped notes)
    (read : readProgram file source = .ok program) :
    analyze program = .ok ⟨program.settled.2.facts, program.symbols⟩ := by
  obtain ⟨_, clean, _⟩ := wellTyped_iff.mp typed
  exact analyze_eq_ok_iff.mpr ⟨clean, settled_nil read, typed.errors_settled read, rfl⟩

/-- The type system assigns an answer to a question about a program if it is in all annotations that
make the program well typed. -/
def Assigns (program : Program) (key : FactKey) (value : FactValue) : Prop :=
  ∀ notes, program.WellTyped notes → notes.facts.known? key = some value

/-- A program is accepted if and only if it is well typed, and it is then annotated with what the
type system assigns to it, and nothing else. -/
theorem decides_type_system (read : readProgram file source = .ok program) :
    ((∃ notes, analyze program = .ok notes) ↔ ∃ notes, program.WellTyped notes) ∧
      ∀ notes, analyze program = .ok notes → program.WellTyped notes ∧
        ∀ key value, notes.facts.known? key = some value ↔ program.Assigns key value := by
  refine ⟨⟨?_, ?_⟩, ?_⟩
  · rintro ⟨notes, analyzed⟩
    exact ⟨notes, wellTyped_of_analyze read analyzed⟩
  · rintro ⟨notes, typed⟩
    exact ⟨_, typed.analyze_eq read⟩
  · intro notes analyzed
    have typed := wellTyped_of_analyze read analyzed
    refine ⟨typed, fun key value => ⟨?_, fun assigned => assigned notes typed⟩⟩
    intro known other otherTyped
    obtain ⟨_, _, _, rfl⟩ := analyze_eq_ok_iff.mp analyzed
    rw [FactStore.known?_eq_some] at known ⊢
    exact otherTyped.settled_within read key _ known

/-- An empty array takes its type from the parameter, the target of the assignment, the result type
or the literal around it. Nothing tells the type of one that an inferred variable starts with. -/
theorem decides_type_system_for_empty_arrays :
    (∃ program notes,
      readProgram "main.sigh" "fun f(a: Int[][]): Int[] { a = [[], [1], []] return [] }
      var b = f([])".toList = .ok program ∧ analyze program = .ok notes ∧
      program.WellTyped notes ∧
      ∀ key value, notes.facts.known? key = some value ↔ program.Assigns key value) ∧
      ∃ program, readProgram "main.sigh" "var a = []".toList = .ok program ∧
        ¬ ∃ notes, program.WellTyped notes := by
  constructor
  · have known : verdict "main.sigh" "fun f(a: Int[][]): Int[] { a = [[], [1], []] return [] }
      var b = f([])".toList = some true := by
      decide +kernel
    obtain ⟨program, read, passed⟩ := analyzed_of_verdict known
    obtain ⟨_, decided⟩ := decides_type_system read
    cases analyzed : analyze program with
    | error errors =>
      rw [analyzed] at passed
      cases passed
    | ok notes =>
      obtain ⟨typed, assigned⟩ := decided notes analyzed
      exact ⟨program, notes, read, analyzed, typed, assigned⟩
  · have known : verdict "main.sigh" "var a = []".toList = some false := by
      decide +kernel
    obtain ⟨program, read, failed⟩ := analyzed_of_verdict known
    obtain ⟨decided, _⟩ := decides_type_system read
    refine ⟨program, read, fun typed => ?_⟩
    obtain ⟨notes, analyzed⟩ := decided.mpr typed
    rw [analyzed] at failed
    cases failed

end Program

end BoxScript
