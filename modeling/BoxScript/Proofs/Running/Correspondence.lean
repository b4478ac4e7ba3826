import BoxScript.Proofs.Running.Activations
import BoxScript.Proofs.Running.References

/-!
# Frames and scopes

While a program runs, the frames around the one that an expression is evaluated in are those of the
lexical stack of the activation that goes on. They stand for the scopes around the one that the
analysis found the expression in, one by one and in their order (`Heap.StandsFor`): what began as a
block, call or instance stands for the scope of a block, function or box, and its frame binds the
names that are declared there, each for its declaration. So a name is read from, and written to, the
activation that has the place of the scope of its declaration in this stack, and it is never unbound
(`corresponds_at_passages`).
-/

set_option autoImplicit false
set_option maxRecDepth 100000

namespace BoxScript

/-- Whether an activation or instance stands for a scope: the scope is one of its kind, and its
frame is one for the scope. -/
structure Heap.StandsFor (heap : Heap) (symbols : SymbolTable) (entry : ScopeKind × FrameId)
    (scope : ScopeId) : Prop where
  kind : (symbols.scopes[scope]?).map Scope.kind = some entry.1
  isFor : heap.IsFor symbols entry.2 scope

/-- What has a place among the frames of a stack has it in the stack. -/
theorem exists_entry {stack : List (ScopeKind × FrameId)} {frames : List FrameId}
    (same : frames = stack.map Prod.snd) {place : Nat} {home : FrameId}
    (found : frames[place]? = some home) : ∃ kind, stack[place]? = some (kind, home) := by
  rw [same, List.getElem?_map] at found
  obtain ⟨⟨kind, frame⟩, entry, rfl⟩ := Option.map_eq_some_iff.mp found
  exact ⟨kind, entry⟩

namespace Program

variable {file : String} {source : List Char} {program : Program} {notes : Annotations} {fuel : Nat}
    {output : Sink}

/-- Where an expression is evaluated, in the frame of the activation that goes on, the frames from
this one out are those of the one lexical stack of the activation. They stand for the scopes from
the one out that the walk came by the expression in, up to the builtin scope. A name in it that
means no method reaches the activation at the place of the scope of its declaration. It is read
there, and is never found to be undefined. If the expression is an assignment to a name, the frames
around are still the same after the value has been evaluated, and the value is written to the
activation that the name reaches. -/
theorem corresponds_at_passages (checked : checkSource file source = .ok (program, notes))
    {passage : Passage} (passed : passage ∈ program.passages notes fuel (.fresh output))
    {frame : FrameId} {e : Expr} (task : passage.task = .expr frame e) {scope : ScopeId}
    {expectation : Expectation} (step : .expr scope expectation e ∈ Walk.program program.body) :
    frame = passage.activation ∧ ∃ stack,
      (∀ other, Lexical notes (program.passages notes fuel (.fresh output)) frame other ↔
        other = stack) ∧
      passage.machine.heap.chain frame = stack.map Prod.snd ∧
      List.Forall₂ (passage.machine.heap.StandsFor notes.symbols) stack
        (notes.symbols.chain scope) ∧
      (notes.symbols.chain scope).getLast? = some SymbolTable.builtinScope ∧
      (∀ mark name decl, e.reference? = some (mark, name) → notes.declOf? mark.id = some decl →
        decl.kind ≠ .method →
        (∃ kind home, stack[(notes.symbols.chain scope).idxOf decl.scope]? = some (kind, home) ∧
          passage.machine.heap.Reaches notes.symbols frame scope name decl home ∧
          Eval.read notes frame mark name passage.machine =
            match passage.machine.heap.getLocal? home name with
            | some value => .ok value passage.machine
            | none => .error (.failed ⟨.uninitialised name, mark.span⟩) passage.machine) ∧
        ∀ less span after, evaluate notes less (.expr frame e) passage.machine ≠
          .error (.failed ⟨.fault (.undefinedName name), span⟩) after) ∧
      ∀ mark target value word name decl, e = .assign mark target value →
        target.bare = .symbol word name → notes.declOf? word.id = some decl →
        ∀ less (given : Value) after,
          evaluate notes less (.expr frame value) passage.machine = .ok given after →
          after.heap.chain frame = passage.machine.heap.chain frame ∧
          ∃ kind home, stack[(notes.symbols.chain scope).idxOf decl.scope]? = some (kind, home) ∧
            after.heap.Reaches notes.symbols frame scope name decl home ∧
            evaluate notes (less + 2) (.expr frame e) passage.machine =
              match after.heap.getLocal? home name with
              | some _ => .ok (given.coerce (notes.typeOf? mark.id)) { after with
                  heap := after.heap.modifyNames home
                    (Frame.write name (given.coerce (notes.typeOf? mark.id))) }
              | none => .error (.failed ⟨.uninitialised name, word.span⟩) after := by
  have accepted := accepted_of_checkSource checked
  obtain ⟨here, w, stack, types, home, walked, lexical, chain, mirrors⟩ :=
    exists_stack_of_expr accepted passed task step
  refine ⟨here, stack, lexical, chain, ?_, ?_, ?_, ?_⟩
  · exact mirrors.imp fun _ _ ⟨stands, kind⟩ => ⟨kind, types.isFor accepted stands⟩
  · obtain ⟨found, present⟩ := types.scope_present accepted home
    exact accepted.reflects.getLast?_chain accepted.ordered present
  · intro mark name decl refers declared isValue
    obtain ⟨⟨reached, reaches, reads⟩, bound⟩ :=
      types.reads accepted home walked refers declared isValue
    obtain ⟨kind, entry⟩ := exists_entry chain reaches.place
    exact ⟨⟨kind, reached, entry, reaches, reads⟩, bound⟩
  · rintro mark target value word name decl rfl bare declared less given after ran
    obtain ⟨same, reached, reaches, ended⟩ :=
      types.writes accepted home walked bare declared ran
    obtain ⟨kind, entry⟩ := exists_entry (same.trans chain) reaches.place
    exact ⟨same, kind, reached, entry, reaches, ended⟩

/-- A variable of the root scope that a function reads. -/
theorem corresponds_at_outer_variable :
    ∃ program notes passage frame mark name scope expectation decl stack kind home,
      checkSource "main.sigh" "var a: Int = 1; fun f(): Int \x7b return a \x7d f()".toList =
        .ok (program, notes) ∧
      passage ∈ program.passages notes 20 (.fresh .unlimited) ∧
      passage.task = .expr frame (.symbol mark name) ∧
      .expr scope expectation (.symbol mark name) ∈ Walk.program program.body ∧
      notes.declOf? mark.id = some decl ∧ decl.kind ≠ .method ∧ decl.name = "a" ∧
      Lexical notes (program.passages notes 20 (.fresh .unlimited)) passage.activation stack ∧
      stack[(notes.symbols.chain scope).idxOf decl.scope]? = some (kind, home) ∧
      passage.machine.heap.Reaches notes.symbols frame scope name decl home := by
  have found : comesByName "main.sigh"
      "var a: Int = 1; fun f(): Int \x7b return a \x7d f()".toList 20
      (fun decl _ => !decl.isMethod && decl.name == "a") = true := by
    decide +kernel
  obtain ⟨program, notes, frame, mark, name, machine, decl, checked, visited, declared, means⟩ :=
    visited_of_comesByName found
  obtain ⟨noMethod, same⟩ := (Bool.and_eq_true _ _).mp means
  obtain ⟨scope, expectation, step⟩ := step_of_visit (accepted_of_checkSource checked) visited
  have isValue : decl.kind ≠ .method := by
    intro method
    rw [Declaration.isMethod_iff.mpr method] at noMethod
    cases noMethod
  obtain ⟨passage, passed, is⟩ := exists_passage visited
  have task : passage.task = .expr frame (.symbol mark name) := congrArg Visit.task is
  obtain ⟨here, stack, lexical, _, _, _, reads, _⟩ :=
    corresponds_at_passages checked passed task step
  obtain ⟨⟨kind, home, entry, reaches, _⟩, _⟩ := reads mark name decl rfl declared isValue
  exact ⟨program, notes, passage, frame, mark, name, scope, expectation, decl, stack, kind, home,
    checked, passed, task, step, declared, isValue, eq_of_beq same, here ▸ (lexical stack).mpr rfl,
    entry, reaches⟩

end Program

end BoxScript
