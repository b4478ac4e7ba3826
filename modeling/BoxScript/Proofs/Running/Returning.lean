import BoxScript.Proofs.Running.Programs

/-!
# Statements that return

The analysis notes of each statement and block whether it always returns. What it notes is kept: a
run never gets past such a statement or block (`never_runs_through`). It returns a value, halts with
an error or does not end. So the body of a function whose written result type is not Void never
runs to its end, and a call of the function never has the value Void, which a body that runs to its
end gives.
-/

set_option autoImplicit false
set_option maxRecDepth 100000

namespace BoxScript

/-- Whether a task has run to the end of a statement or block that was found to return always. -/
def Task.RunsThrough (notes : Annotations) : (task : Task) → task.Result → Prop
  | .block _ b, .normal => notes.returns? b.mark.id = some true
  | .stmt _ s, .normal | .body _ s, .normal => notes.returns? s.id = some true
  | _, _ => False

/-- What a task promises rules out that it runs to such an end. -/
theorem Admits.not_runsThrough {known : Analysis} {w later : World} {task : Task}
    {promise : World → task.Result → Prop} (admits : Admits known w task promise)
    {result : task.Result} (kept : promise later result) :
    ¬ task.RunsThrough known.notes result := by
  cases admits with
  | block home body returns =>
    cases result with
    | normal => exact kept _ rfl
    | returned value => exact id
  | stmt home positive inside owned =>
    cases result with
    | normal => exact kept _ rfl
    | returned value => exact id
  | body home inside owned =>
    cases result with
    | normal => exact kept _ rfl
    | returned value => exact id
  | _ => exact id

/-- Only the type Void has the value Void. -/
theorem World.HasShape.eq_void {known : Analysis} {w : World} {ty : Ty}
    (shape : w.HasShape known ty .void) : ty = .void := by
  cases shape with
  | void => rfl
  | function signature same => cases signature

namespace Program

variable {file : String} {source : List Char} {program : Program} {notes : Annotations}

/-- A call of a function or method that has a result type other than Void does not have the value
Void. -/
theorem ne_void_of_admits {known : Analysis} (accepted : known.Accepted) {w later : World}
    {decl : FunctionDecl} {outer : FrameId} {arguments : List Value} {span : Span}
    {promise : World → Value → Prop}
    (admits : Admits known w (.invoke decl outer arguments span) promise) {value : Value}
    (kept : promise later value) {type : TypeExpr} {ty : Ty} (written : decl.result = some type)
    (typed : known.notes.typeOf? type.id = some ty) (notVoid : ty ≠ .void) : value ≠ .void := by
  rintro rfl
  cases admits with
  | invoke callable suit =>
    obtain ⟨around, inner, walked, _, declared⟩ := callable
    obtain ⟨_, result, _, resultTyped, declaredToo⟩ := accepted.signature walked
    rw [declared] at declaredToo
    cases declaredToo
    rw [Rule.resultType?, written] at resultTyped
    rw [Option.some.inj (typed.symm.trans resultTyped)] at notVoid
    exact notVoid kept.eq_void

/-- No statement or block that was found to return always is run to its end, in whatever frame and
on whatever heap a run of a checked source comes by it. So a call of a function or method whose
result type is not Void never has the value Void. -/
theorem never_runs_through (checked : checkSource file source = .ok (program, notes)) (fuel : Nat)
    (output : Sink) :
    (∀ visit ∈ program.visits notes fuel (.fresh output), ∀ less result after,
      evaluate notes less visit.task visit.machine = .ok result after →
      ¬ visit.task.RunsThrough notes result) ∧
    ∀ decl outer arguments span machine,
      ⟨.invoke decl outer arguments span, machine⟩ ∈ program.visits notes fuel (.fresh output) →
      ∀ type ty, decl.result = some type → notes.typeOf? type.id = some ty → ty ≠ .void →
      ∀ less value after,
        evaluate notes less (.invoke decl outer arguments span) machine = .ok value after →
        value ≠ .void := by
  have accepted := accepted_of_checkSource checked
  constructor
  · intro visit visited less result after ran
    obtain ⟨w, promise, types, admits⟩ := admits_of_visits accepted visited
    have ends := evaluate_sound accepted less admits visit.machine types
    change Eval.Ends _ _ _ _ (evaluate notes less visit.task visit.machine) at ends
    rw [ran] at ends
    obtain ⟨later, _, _, kept⟩ := ends
    exact admits.not_runsThrough kept
  · intro decl outer arguments span machine visited type ty written typed notVoid less value after
      ran
    obtain ⟨w, promise, types, admits⟩ := admits_of_visits accepted visited
    have ends := evaluate_sound accepted less admits machine types
    change Eval.Ends _ _ _ _ (evaluate notes less (.invoke decl outer arguments span) machine)
      at ends
    rw [ran] at ends
    obtain ⟨later, _, _, kept⟩ := ends
    exact ne_void_of_admits accepted admits kept written typed notVoid

/-- Whether an evaluation came to a result. -/
def givesResult {α : Type} : EStateM.Result Halt Machine α → Bool
  | .ok _ _ => true
  | .error _ _ => false

theorem ran_of_givesResult {α : Type} {result : EStateM.Result Halt Machine α}
    (gives : givesResult result = true) : ∃ value after, result = .ok value after := by
  cases result with
  | ok value after => exact ⟨value, after, rfl⟩
  | error halt after => cases gives

/-- Whether a branch that was found to return always is come by and left. -/
def leavesBranch (notes : Annotations) (fuel : Nat) : Visit → Bool
  | ⟨.stmt frame (.ifElse mark test thenBody elseBody), machine⟩ =>
    notes.returns? mark.id == some true &&
      givesResult (evaluate notes fuel (.stmt frame (.ifElse mark test thenBody elseBody)) machine)
  | _ => false

/-- Whether a call of a function of result type Int is come by and left. -/
def leavesCall (notes : Annotations) (fuel : Nat) : Visit → Bool
  | ⟨.invoke decl outer arguments span, machine⟩ =>
    (match decl.result.bind fun type => notes.typeOf? type.id with
      | some .int => true
      | _ => false) &&
      givesResult (evaluate notes fuel (.invoke decl outer arguments span) machine)
  | _ => false

/-- A function that returns in a block and in a branch without braces. -/
theorem never_runs_through_branches :
    ∃ program notes frame mark test thenBody elseBody machine returned after,
      checkSource "main.sigh"
          "fun f(a: Bool): Int \x7b if a \x7b return 1 \x7d else return 2 \x7d f(true)".toList =
        .ok (program, notes) ∧
      ⟨.stmt frame (.ifElse mark test thenBody elseBody), machine⟩ ∈
        program.visits notes 20 (.fresh .unlimited) ∧
      notes.returns? mark.id = some true ∧
      evaluate notes 20 (.stmt frame (.ifElse mark test thenBody elseBody)) machine =
        .ok (.returned returned) after ∧
      ∃ decl outer arguments span caller type value later,
        ⟨.invoke decl outer arguments span, caller⟩ ∈
          program.visits notes 20 (.fresh .unlimited) ∧
        decl.result = some type ∧ notes.typeOf? type.id = some .int ∧
        evaluate notes 20 (.invoke decl outer arguments span) caller = .ok value later ∧
        value ≠ .void := by
  have passed : passes "main.sigh"
      "fun f(a: Bool): Int \x7b if a \x7b return 1 \x7d else return 2 \x7d f(true)".toList
      (fun program notes =>
        (program.visits notes 20 (.fresh .unlimited)).any (leavesBranch notes 20) &&
          (program.visits notes 20 (.fresh .unlimited)).any (leavesCall notes 20)) = true := by
    decide +kernel
  obtain ⟨program, notes, checked, left⟩ := checked_of_passes passed
  rw [Bool.and_eq_true, List.any_eq_true, List.any_eq_true] at left
  obtain ⟨⟨visit, visited, branch⟩, other, visitedToo, call⟩ := left
  obtain ⟨runs, calls⟩ := never_runs_through checked 20 .unlimited
  unfold leavesBranch at branch
  unfold leavesCall at call
  split at branch
  · rename_i frame mark test thenBody elseBody machine
    split at call
    · rename_i decl outer arguments span caller
      rw [Bool.and_eq_true] at branch call
      obtain ⟨always, gives⟩ := branch
      obtain ⟨isInt, givesToo⟩ := call
      obtain ⟨completion, after, ran⟩ := ran_of_givesResult gives
      obtain ⟨value, later, ranToo⟩ := ran_of_givesResult givesToo
      split at isInt
      · rename_i typed
        obtain ⟨type, written, typed⟩ := Option.bind_eq_some_iff.mp typed
        have notVoid := calls decl outer arguments span caller visitedToo type .int written typed
          nofun 20 value later ranToo
        cases completion with
        | normal => exact absurd (eq_of_beq always) (runs _ visited 20 _ after ran)
        | returned returned =>
          exact ⟨program, notes, frame, mark, test, thenBody, elseBody, machine, returned, after,
            checked, visited, eq_of_beq always, ran, decl, outer, arguments, span, caller, type,
            value, later, visitedToo, written, typed, ranToo, notVoid⟩
      · cases isInt
    · cases call
  · cases branch

end Program

end BoxScript
