import BoxScript.Proofs.Running.Correspondence

/-!
# Bare names of methods

A bare name that means a method is bound to the innermost instance around it. That is the instance
that the method was found in just if no other box lies between the name and the box of the method
(`binds_at_passages`). A name inside a box that is declared in a method of another one may mean a
method of the outer box, and then its evaluation fails, since the receiver is of the inner box
(`not_bound_inside_inner_box`).
-/

set_option autoImplicit false
set_option maxRecDepth 100000

namespace BoxScript

theorem evaluate_symbol (notes : Annotations) (less : Nat) (frame : FrameId) (mark : Mark)
    (name : String) :
    evaluate notes (less + 1) (.expr frame (.symbol mark name)) =
      Eval.symbol notes frame mark name :=
  bind_pure (Eval.symbol notes frame mark name)

/-- The receiver of a frame has the place of its scope in the stack of the frames around, as a
box. -/
theorem World.Types.entry_of_receiver {known : Analysis} {w : World} {heap : Heap}
    (types : w.Types known heap) (accepted : known.Accepted) {frame receiver : FrameId}
    {scope inner : ScopeId} {cls : BoxClass} {stack : List (ScopeKind × FrameId)}
    (home : w.scope? frame = some scope) (chain : heap.chain frame = stack.map Prod.snd)
    (mirrors : List.Forall₂ (fun entry around => w.scope? entry.2 = some around ∧
      (known.notes.symbols.scopes[around]?).map Scope.kind = some entry.1) stack
      (known.notes.symbols.chain scope))
    (received : heap.receiver? frame = some receiver)
    (shaped : w.frames[receiver]? = some (inner, some cls)) :
    stack[(known.notes.symbols.chain scope).idxOf inner]? = some (.box, receiver) ∧
      known.notes.symbols.memberScopes.lookup cls.decl = some inner := by
  obtain ⟨stored, _, stands⟩ := types.frame shaped
  obtain ⟨around, box, walked, node, _⟩ := stands.made cls rfl
  have distinct := accepted.reflects.nodup_chain accepted.ordered scope
  have reached : receiver ∈ heap.chain frame := List.mem_of_find?_eq_some received
  have stood : w.scope? receiver = some inner := World.scope?_of_frames shaped
  have place := (types.mirrors accepted home).place distinct reached stood
  obtain ⟨kind, entry⟩ := exists_entry chain place
  have isBox : kind = .box := by
    obtain ⟨there, _, stoodThere, same⟩ :=
      exists_of_forall₂_left mirrors (List.mem_of_getElem? entry)
    cases stood.symm.trans stoodThere
    obtain ⟨names, order, present⟩ := accepted.reflects.opened walked.opened
    exact Option.some.inj (same.symm.trans (congrArg (Option.map Scope.kind) present))
  have members := accepted.reflects.lookup_memberScopes_of_mem accepted.distinct walked.members
  exact ⟨isBox ▸ entry, node ▸ members⟩

/-- Whether an evaluation gave a value. -/
def isOk {α : Type} : EStateM.Result Halt Machine α → Bool
  | .ok _ _ => true
  | .error _ _ => false

namespace Program

variable {file : String} {source : List Char} {program : Program} {notes : Annotations} {fuel : Nat}
    {output : Sink}

/-- A bare name that means a method is bound to the instance at the place of the scope of its box in
the lexical stack of the activation that goes on, which is where the frames around the name come
from, if this is the innermost box scope around the name. Otherwise its evaluation fails, since the
receiver does not have the method. -/
theorem binds_at_passages (checked : checkSource file source = .ok (program, notes))
    {passage : Passage} (passed : passage ∈ program.passages notes fuel (.fresh output))
    {frame : FrameId} {mark : Mark} {name : String}
    (task : passage.task = .expr frame (.symbol mark name)) {scope : ScopeId}
    {expectation : Expectation}
    (step : .expr scope expectation (.symbol mark name) ∈ Walk.program program.body)
    {decl : Declaration} (declared : notes.declOf? mark.id = some decl)
    (method : decl.kind = .method) (less : Nat) :
    (notes.symbols.innermostBox? scope = some decl.scope →
      ∃ stack receiver cls found,
        (∀ other, Lexical notes (program.passages notes fuel (.fresh output)) passage.activation
          other ↔ other = stack) ∧
        passage.machine.heap.chain frame = stack.map Prod.snd ∧
        stack[(notes.symbols.chain scope).idxOf decl.scope]? = some (.box, receiver) ∧
        passage.machine.heap.class? receiver = some cls ∧
        notes.symbols.memberScopes.lookup cls.decl = some decl.scope ∧
        found ∈ cls.methods ∧ decl.node = some found.mark.id ∧
        evaluate notes (less + 1) (.expr frame (.symbol mark name)) passage.machine =
          .ok (.method receiver found) passage.machine) ∧
      (notes.symbols.innermostBox? scope ≠ some decl.scope →
        evaluate notes (less + 1) (.expr frame (.symbol mark name)) passage.machine =
          .error (.failed ⟨.fault (.noMethod name), mark.span⟩) passage.machine) := by
  have accepted := accepted_of_checkSource checked
  obtain ⟨same, w, stack, types, home, walked, lexical, chain, mirrors⟩ :=
    exists_stack_of_expr accepted passed task step
  subst same
  obtain ⟨meant, _, resolves, declaredToo, _⟩ := accepted.symbol walked
  have same : some meant = some decl := declaredToo.symm.trans declared
  cases same
  obtain ⟨inner, receiver, cls, innermost, received, shaped, class?, here, other⟩ :=
    types.receiver accepted home resolves method
  have isMethod : Eval.isMethod notes mark.id = true := (Eval.isMethod_iff declared).mpr method
  rw [evaluate_symbol, Eval.symbol_of_method isMethod received class?]
  change notes.symbols.innermostBox? scope = some inner at innermost
  rw [innermost]
  constructor
  · intro equal
    cases equal
    obtain ⟨found, inMethods, looked, is⟩ := here rfl
    obtain ⟨entry, members⟩ :=
      types.entry_of_receiver accepted home chain mirrors received shaped
    refine ⟨stack, receiver, cls, found, lexical, chain, entry, class?, members, inMethods, ?_, ?_⟩
    · rw [is]
      rfl
    · rw [looked]
  · intro different
    rw [other fun equal => different (congrArg some equal)]

/-- A method that names another one of its box. -/
theorem binds_at_method_of_same_box :
    ∃ program notes passage frame mark name decl stack receiver found,
      checkSource "main.sigh"
        "box A \x7b meth m() \x7b\x7d meth k() \x7b m() \x7d \x7d create A()#k()".toList =
          .ok (program, notes) ∧
      passage ∈ program.passages notes 40 (.fresh .unlimited) ∧
      passage.task = .expr frame (.symbol mark name) ∧
      notes.declOf? mark.id = some decl ∧ decl.kind = .method ∧
      Lexical notes (program.passages notes 40 (.fresh .unlimited)) passage.activation stack ∧
      (.box, receiver) ∈ stack ∧ decl.node = some found.mark.id ∧
      evaluate notes 1 (.expr frame (.symbol mark name)) passage.machine =
        .ok (.method receiver found) passage.machine := by
  have comes : comesByName "main.sigh"
      "box A \x7b meth m() \x7b\x7d meth k() \x7b m() \x7d \x7d create A()#k()".toList 40
      (fun decl result => decl.isMethod && isOk result) = true := by
    decide +kernel
  obtain ⟨program, notes, frame, mark, name, machine, decl, checked, visited, declared, gives⟩ :=
    visited_of_comesByName comes
  obtain ⟨isMethod, ran⟩ := (Bool.and_eq_true _ _).mp gives
  have method := Declaration.isMethod_iff.mp isMethod
  obtain ⟨scope, expectation, step⟩ := step_of_visit (accepted_of_checkSource checked) visited
  obtain ⟨passage, passed, is⟩ := exists_passage visited
  have task : passage.task = .expr frame (.symbol mark name) := congrArg Visit.task is
  have here : passage.machine = machine := congrArg Visit.machine is
  obtain ⟨bound, unbound⟩ := binds_at_passages checked passed task step declared method 0
  rw [here] at unbound
  have innermost : notes.symbols.innermostBox? scope = some decl.scope := by
    by_contra other
    rw [unbound other] at ran
    cases ran
  obtain ⟨stack, receiver, _, found, lexical, _, entry, _, _, _, node, evaluated⟩ :=
    bound innermost
  exact ⟨program, notes, passage, frame, mark, name, decl, stack, receiver, found, checked, passed,
    task, declared, method, (lexical stack).mpr rfl, List.mem_of_getElem? entry, node, evaluated⟩

/-- A method of an outer box that is named inside an inner one is not bound to any receiver. -/
theorem not_bound_inside_inner_box :
    ¬ ∀ (file : String) (source : List Char) (program : Program) (notes : Annotations)
      (fuel : Nat) (output : Sink)
      (frame : FrameId) (mark : Mark) (name : String) (machine : Machine) (decl : Declaration),
      checkSource file source = .ok (program, notes) →
      ⟨.expr frame (.symbol mark name), machine⟩ ∈ program.visits notes fuel (.fresh output) →
      notes.declOf? mark.id = some decl → decl.kind = .method →
      ∃ less receiver found, evaluate notes less (.expr frame (.symbol mark name)) machine =
        .ok (.method receiver found) machine := by
  intro all
  have passed : comesByName "main.sigh"
      ("box A \x7b meth m() \x7b\x7d meth k() \x7b box B \x7b meth n() \x7b m() \x7d \x7d " ++
        "create B()#n() \x7d \x7d create A()#k()").toList 60
      (fun decl result => decl.isMethod && !isOk result) = true := by
    decide +kernel
  obtain ⟨program, notes, frame, mark, name, machine, decl, checked, visited, declared, lacks⟩ :=
    visited_of_comesByName passed
  obtain ⟨isMethod, ran⟩ := (Bool.and_eq_true _ _).mp lacks
  obtain ⟨less, receiver, found, bound⟩ := all _ _ program notes 60 .unlimited frame mark name
    machine decl checked visited declared (Declaration.isMethod_iff.mp isMethod)
  cases less with
  | zero => cases bound
  | succ less =>
    rw [evaluate_symbol] at bound ran
    rw [bound] at ran
    cases ran

end Program

end BoxScript
