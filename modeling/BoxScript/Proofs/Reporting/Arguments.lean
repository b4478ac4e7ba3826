import BoxScript.Proofs.Rules.Fates
import BoxScript.Proofs.Typing.Completeness
import BoxScript.Proofs.Typing.Found

/-!
# Which errors of arguments are reported

A call compares its arguments with the parameters of what it calls, and one rule does so for all of
them. If the types of all arguments have been found, it reports each argument that does not fit
(`Program.argument_errors_of_call`), and these errors come on top of those of all other rules.

The rule reads the types one after another. If one of them is missing, because there is an error in
that argument itself, the rule is dropped with the errors it has found so far. So the call then
reports no argument at all, not even one that is known not to fit
(`Program.argument_unreported_beside_unknown_name`).
-/

set_option autoImplicit false
set_option maxRecDepth 100000

namespace BoxScript

open Script

/-- The errors of the arguments from a number on whose own types are known but do not fit, one for
each. -/
def Annotations.argumentErrors (notes : Annotations) : Nat → List Ty → List Expr →
    List SemanticError
  | index, param :: params, argument :: rest =>
    (match notes.typeOf? argument.id with
      | some actual =>
        if actual.isAssignableTo param then []
        else [⟨.mismatch (.argument index param actual), argument.span⟩]
      | none => []) ++ notes.argumentErrors (index + 1) params rest
  | _, _, _ => []

namespace Annotations

variable {notes : Annotations} {params : List Ty} {given : List Expr} {start : Nat}

/-- Each argument that does not fit has its error. -/
theorem mem_argumentErrors {error : SemanticError} :
    error ∈ notes.argumentErrors start params given ↔ ∃ index param argument actual,
      params[index]? = some param ∧ given[index]? = some argument ∧
        notes.typeOf? argument.id = some actual ∧ actual.isAssignableTo param = false ∧
        error = ⟨.mismatch (.argument (start + index) param actual), argument.span⟩ := by
  induction params generalizing start given with
  | nil => simp [argumentErrors]
  | cons param params ih =>
    cases given with
    | nil => simp [argumentErrors]
    | cons argument rest =>
      rw [argumentErrors, List.mem_append, ih]
      constructor
      · rintro (here | ⟨index, param, argument, actual, isParam, isArgument, found⟩)
        · split at here
          · rename_i actual known
            split at here
            · cases here
            · rename_i unfit
              exact ⟨0, param, argument, actual, rfl, rfl, known, Bool.eq_false_iff.mpr unfit,
                List.mem_singleton.mp here⟩
          · cases here
        · refine ⟨index + 1, param, argument, actual, isParam, isArgument, ?_⟩
          rwa [Nat.add_right_comm] at found
      · rintro ⟨_ | index, other, owner, actual, isParam, isArgument, known, unfit, same⟩
        · cases isParam
          cases isArgument
          left
          simp [known, unfit, same]
        · refine .inr ⟨index, other, owner, actual, isParam, isArgument, known, unfit, ?_⟩
          rwa [Nat.add_right_comm]

end Annotations

namespace Script

variable {facts : FactStore} {symbols : SymbolTable} {node : NodeId} {next : Ty → Script Unit}

/-- A type that is known is read. -/
theorem attempt_typeOf_bind {ty : Ty}
    (known : Annotations.typeOf? ⟨facts, symbols⟩ node = some ty) :
    (typeOf node >>= next).attempt facts = (next ty).attempt facts := by
  unfold Annotations.typeOf? Annotations.typeFact? FactStore.known? at known
  change (Script.read ⟨node, .type⟩ _).attempt facts = _
  rw [attempt]
  cases slot : facts.get? ⟨node, .type⟩ with
  | none => simp [slot] at known
  | some answer =>
    rcases answer with (_ | _ | _) | _
    all_goals simp [slot] at known
    subst known
    rfl

theorem answered_typeOf_bind {ty : Ty}
    (known : Annotations.typeOf? ⟨facts, symbols⟩ node = some ty) :
    (typeOf node >>= next).Answered facts ↔ (next ty).Answered facts := by
  unfold Annotations.typeOf? Annotations.typeFact? FactStore.known? at known
  change (Script.read ⟨node, .type⟩ _).Answered facts ↔ _
  rw [Answered]
  cases slot : facts.get? ⟨node, .type⟩ with
  | none => simp [slot] at known
  | some answer =>
    rcases answer with (_ | _ | _) | _
    all_goals simp [slot] at known
    subst known
    rfl

theorem not_answered_typeOf_bind
    (unknown : Annotations.typeOf? ⟨facts, symbols⟩ node = none) :
    ¬ (typeOf node >>= next).Answered facts := by
  unfold Annotations.typeOf? Annotations.typeFact? FactStore.known? at unknown
  change ¬ (Script.read ⟨node, .type⟩ _).Answered facts
  rw [Answered]
  cases slot : facts.get? ⟨node, .type⟩ with
  | none => exact id
  | some answer =>
    rcases answer with (_ | _ | _) | _
    · simp [slot] at unknown
    all_goals exact id

theorem errors_of_unanswered {script : Script Unit} (unanswered : ¬ script.Answered facts) :
    (script.attempt facts).errors = [] := by
  rcases attempt_of_unanswered unanswered with dropped | ⟨key, waits⟩
  · rw [dropped]
    rfl
  · rw [waits]
    rfl

end Script

namespace Rule

variable {facts : FactStore} {symbols : SymbolTable} {params : List Ty} {given : List Expr}
  {index : Nat} {node : NodeId} {result : Ty}

theorem attempt_checkArguments
    (known : ∀ argument ∈ given, Annotations.typeOf? ⟨facts, symbols⟩ argument.id ≠ none) :
    (checkArguments index params given >>= fun _ => setType node result).attempt facts =
      .completed [(⟨node, .type⟩, .type result)]
        (Annotations.argumentErrors ⟨facts, symbols⟩ index params given) := by
  induction params generalizing index given with
  | nil => rfl
  | cons param params ih =>
    cases given with
    | nil => rfl
    | cons argument rest =>
      obtain ⟨first, others⟩ := List.forall_mem_cons.mp known
      obtain ⟨actual, read⟩ := Option.ne_none_iff_exists'.mp first
      rw [checkArguments, bind_assoc, attempt_typeOf_bind read, Annotations.argumentErrors, read]
      by_cases fits : actual.isAssignableTo param = true
      · simp only [fits]
        exact ih others
      · simp only [fits]
        exact congrArg (Attempt.addError _) (ih others)

/-- The comparison comes to no end if one type is not known. -/
theorem not_answered_checkArguments (fits : params.length = given.length)
    (unknown : ∃ argument ∈ given, Annotations.typeOf? ⟨facts, symbols⟩ argument.id = none) :
    ¬ (checkArguments index params given >>= fun _ => setType node result).Answered facts := by
  induction params generalizing index given with
  | nil =>
    obtain ⟨argument, member, _⟩ := unknown
    rw [List.length_eq_zero_iff.mp fits.symm] at member
    cases member
  | cons param params ih =>
    cases given with
    | nil => cases fits
    | cons argument rest =>
      rw [checkArguments, bind_assoc]
      cases read : Annotations.typeOf? ⟨facts, symbols⟩ argument.id with
      | none => exact not_answered_typeOf_bind read
      | some actual =>
        have others : ∃ argument ∈ rest,
            Annotations.typeOf? ⟨facts, symbols⟩ argument.id = none := by
          obtain ⟨other, member, none⟩ := unknown
          rcases List.mem_cons.mp member with rfl | member
          · rw [read] at none
            cases none
          · exact ⟨other, member, none⟩
        have dropped := @ih rest (index + 1) (Nat.succ.inj fits) others
        rw [answered_typeOf_bind read]
        -- Whether the argument fits or is reported, the comparison goes on with the others.
        by_cases fits : actual.isAssignableTo param = true
        · simp only [fits]
          exact dropped
        · simp only [fits]
          exact dropped

variable {mark : Mark} {callee : Expr}

theorem errors_call_of_known (isFunction : Annotations.typeOf? ⟨facts, symbols⟩ callee.id =
      some (.function params result)) (fits : params.length = given.length)
    (known : ∀ argument ∈ given, Annotations.typeOf? ⟨facts, symbols⟩ argument.id ≠ none) :
    ((call mark callee given).attempt symbols facts).errors =
      Annotations.argumentErrors ⟨facts, symbols⟩ 0 params given := by
  rw [call, ofScript]
  dsimp only
  rw [attempt_typeOf_bind isFunction]
  simp only [fits, ne_eq, not_true_eq_false, if_false]
  exact congrArg Attempt.errors (attempt_checkArguments known)

theorem errors_call_of_unknown (isFunction : Annotations.typeOf? ⟨facts, symbols⟩ callee.id =
      some (.function params result)) (fits : params.length = given.length)
    (unknown : ∃ argument ∈ given, Annotations.typeOf? ⟨facts, symbols⟩ argument.id = none) :
    ((call mark callee given).attempt symbols facts).errors = [] := by
  rw [call, ofScript]
  dsimp only
  rw [attempt_typeOf_bind isFunction]
  simp only [fits, ne_eq, not_true_eq_false, if_false]
  exact errors_of_unanswered (not_answered_checkArguments fits unknown)

end Rule

/-! ## Calls of a program -/

namespace Program

/-- What the analysis has found out about the nodes of a program, whether it accepts it or not. -/
def notes (program : Program) : Annotations := ⟨program.found.facts, program.symbols⟩

variable {program : Program} {file : String} {source : List Char}

/-- The errors of a program are those of duplicate names and those that its rules come to under the
facts that are found. -/
theorem errors_perm (read : readProgram file source = .ok program) :
    program.errors.Perm ((survey program.steps).errors.toList ++ program.rules.flatMap fun rule =>
      (rule.attempt program.symbols program.found.facts).errors) := by
  have collected := (settled_settled (nodup_of_readProgram read)).errors
  have solved := solve_settled read
  have facts : program.found.facts = program.settled.2.facts := by rw [found, solved]
  rw [errors_eq, facts]
  refine (List.mergeSort_perm ..).trans (List.Perm.append_left _ ?_)
  rw [solved]
  exact collected

/-- A call has its rule. -/
theorem exists_call_rule {mark : Mark} {callee : Expr} {given : List Expr}
    (inside : .expr (.call mark callee given) ∈ Stmt.nodesOfAll program.body) :
    ∃ before after, program.rules = before ++ Rule.call mark callee given :: after := by
  obtain ⟨scope, expectation, walked⟩ := Walk.covers_program program.body _ inside
  exact List.append_of_mem (List.mem_flatMap.mpr ⟨_, walked, List.mem_singleton_self _⟩)

/-- A call of a function with as many arguments as it has parameters reports each argument that does
not fit, on top of the errors of all other rules, if the types of all arguments are found. If not,
it reports nothing. -/
theorem argument_errors_of_call (read : readProgram file source = .ok program) {mark : Mark}
    {callee : Expr} {given : List Expr}
    (inside : .expr (.call mark callee given) ∈ Stmt.nodesOfAll program.body)
    {params : List Ty} {result : Ty}
    (isFunction : program.notes.typeOf? callee.id = some (.function params result))
    (fits : params.length = given.length) :
    ∃ before after, program.rules = before ++ Rule.call mark callee given :: after ∧
      let others := (survey program.steps).errors.toList ++ (before ++ after).flatMap fun rule =>
        (rule.attempt program.symbols program.found.facts).errors
      ((∀ argument ∈ given, program.notes.typeOf? argument.id ≠ none) →
        program.errors.Perm (others ++ program.notes.argumentErrors 0 params given)) ∧
      ((∃ argument ∈ given, program.notes.typeOf? argument.id = none) →
        program.errors.Perm others) := by
  obtain ⟨before, after, split⟩ := exists_call_rule inside
  refine ⟨before, after, split, ?_⟩
  intro others
  have all := errors_perm read
  rw [split] at all
  have moved : program.errors.Perm (others ++ ((Rule.call mark callee given).attempt
      program.symbols program.found.facts).errors) := by
    refine all.trans ?_
    rw [List.flatMap_append, List.flatMap_cons, List.append_assoc, List.flatMap_append,
      List.append_assoc]
    exact (List.perm_append_comm.append_left _).append_left _
  constructor
  · intro known
    rwa [Rule.errors_call_of_known isFunction fits known] at moved
  · intro unknown
    rwa [Rule.errors_call_of_unknown isFunction fits unknown, List.append_nil] at moved

/-- Whether a source spells a program with a call of a known function that passes a test, with as
many arguments as there are parameters. -/
def comesByCall (file : String) (source : List Char)
    (test : Program → List Ty → List Expr → Bool) : Bool :=
  match readProgram file source with
  | .error _ => false
  | .ok program => (Stmt.nodesOfAll program.body).any fun
    | .expr (.call _ callee given) =>
      match program.notes.typeOf? callee.id with
      | some (.function params _) =>
        decide (params.length = given.length) && test program params given
      | _ => false
    | _ => false

theorem exists_call {file : String} {source : List Char}
    {test : Program → List Ty → List Expr → Bool}
    (found : comesByCall file source test = true) : ∃ program mark callee given params result,
      readProgram file source = .ok program ∧
      .expr (.call mark callee given) ∈ Stmt.nodesOfAll program.body ∧
      program.notes.typeOf? callee.id = some (.function params result) ∧
      params.length = given.length ∧ test program params given = true := by
  unfold comesByCall at found
  split at found
  · cases found
  rename_i program read
  obtain ⟨node, inside, holds⟩ := List.any_eq_true.mp found
  split at holds
  · split at holds
    · rename_i mark callee given _ params result isFunction
      obtain ⟨fits, passed⟩ := (Bool.and_eq_true _ _).mp holds
      exact ⟨program, mark, callee, given, params, result, read, inside, isFunction,
        of_decide_eq_true fits, passed⟩
    · cases holds
  · cases holds

/-- Neither argument fits, and both are reported. -/
theorem argument_errors_of_call_with_two :
    ∃ program mark callee given params result,
      readProgram "main.sigh" "fun f(s: String, i: Int) \x7b\x7d\nf(1, true)".toList = .ok program ∧
      .expr (.call mark callee given) ∈ Stmt.nodesOfAll program.body ∧
      program.notes.typeOf? callee.id = some (.function params result) ∧
      params.length = given.length ∧
      (program.notes.argumentErrors 0 params given).length = 2 ∧
      ∀ error ∈ program.notes.argumentErrors 0 params given, error ∈ program.errors := by
  have found : comesByCall "main.sigh" "fun f(s: String, i: Int) \x7b\x7d\nf(1, true)".toList
      (fun program params given =>
        given.all (fun argument => (program.notes.typeOf? argument.id).isSome) &&
          decide ((program.notes.argumentErrors 0 params given).length = 2)) = true := by
    decide +kernel
  obtain ⟨program, mark, callee, given, params, result, read, inside, isFunction, fits, holds⟩ :=
    exists_call found
  obtain ⟨all, two⟩ := (Bool.and_eq_true _ _).mp holds
  have known : ∀ argument ∈ given, program.notes.typeOf? argument.id ≠ none :=
    fun argument member => Option.isSome_iff_ne_none.mp (List.all_eq_true.mp all argument member)
  obtain ⟨before, after, -, reported, -⟩ := argument_errors_of_call read inside isFunction fits
  refine ⟨program, mark, callee, given, params, result, read, inside, isFunction, fits,
    of_decide_eq_true two, fun error owed => ?_⟩
  exact (reported known).mem_iff.mpr (List.mem_append_right _ owed)

/-- An argument that does not fit is not reported beside a name that nothing declares. -/
theorem argument_unreported_beside_unknown_name :
    ∃ program mark callee given params result index param argument actual,
      readProgram "main.sigh" "fun f(a: Int, b: Int) \x7b\x7d\nf(true, x)".toList = .ok program ∧
      .expr (.call mark callee given) ∈ Stmt.nodesOfAll program.body ∧
      program.notes.typeOf? callee.id = some (.function params result) ∧
      params.length = given.length ∧ params[index]? = some param ∧
      given[index]? = some argument ∧ program.notes.typeOf? argument.id = some actual ∧
      actual.isAssignableTo param = false ∧
      ∀ error ∈ program.errors, error.cause ≠ .mismatch (.argument index param actual) := by
  have found : comesByCall "main.sigh" "fun f(a: Int, b: Int) \x7b\x7d\nf(true, x)".toList
      (fun program params given =>
        !(program.notes.argumentErrors 0 params given).isEmpty &&
          program.found.errors.all fun error => match error.cause with
            | .mismatch _ => false
            | _ => true) = true := by
    decide +kernel
  obtain ⟨program, mark, callee, given, params, result, read, inside, isFunction, fits, holds⟩ :=
    exists_call found
  obtain ⟨some, others⟩ := (Bool.and_eq_true _ _).mp holds
  obtain ⟨error, rest, owed⟩ := List.exists_cons_of_ne_nil
    (mt List.isEmpty_iff.mpr ((Bool.not_eq_true' _).mp some ▸ Bool.false_ne_true))
  obtain ⟨index, param, argument, actual, isParam, isArgument, known, unfit, -⟩ :=
    Annotations.mem_argumentErrors.mp (owed ▸ List.mem_cons_self)
  refine ⟨program, mark, callee, given, params, result, index, param, argument, actual, read,
    inside, isFunction, fits, isParam, isArgument, known, unfit, fun error reported same => ?_⟩
  rw [errors_eq, List.mem_mergeSort] at reported
  have other := List.all_eq_true.mp others error reported
  rw [same] at other
  cases other

end Program

end BoxScript
