import BoxScript.Proofs.Running.Programs

/-!
# What names refer to

A frame for a scope binds the names that are declared there, each for its declaration, and the frame
for the scope of a box is an instance of the box (`Heap.IsFor`). So on a heap that conforms to a
world, a name is read from, and written to, the frame that has the place of the scope of its
declaration among the frames around (`Heap.Reaches`), and it is never unbound
(`World.Types.reads`, `World.Types.writes`).
-/

set_option autoImplicit false

namespace BoxScript

/-! ## Frames for scopes -/

namespace Heap

/-- Whether a frame is one for a scope. It binds the names that are declared there, the methods of a
box apart, each for its declaration. It is an instance if the scope holds the members of a box, and
then it is one of that box. -/
structure IsFor (heap : Heap) (symbols : SymbolTable) (frame : FrameId) (scope : ScopeId) :
    Prop where
  binds : ∀ name node, heap.binds name node frame = true ↔
    ∃ id decl, symbols.declaredIn? scope name = some id ∧ symbols.decls[id]? = some decl ∧
      decl.kind ≠ .method ∧ decl.node = node
  isInstance : (heap.class? frame).isSome = symbols.isBox scope
  members : ∀ cls, heap.class? frame = some cls →
    symbols.memberScopes.lookup cls.decl = some scope

/-- Whether a name that means a declaration reaches a frame: the one that has the place of the scope
of the declaration. It is the frame that binds the name for the declaration, and there is a value
there unless the declaration is that of a variable, which may not have run. -/
structure Reaches (heap : Heap) (symbols : SymbolTable) (frame : FrameId) (scope : ScopeId)
    (name : String) (decl : Declaration) (home : FrameId) : Prop where
  place : (heap.chain frame)[(symbols.chain scope).idxOf decl.scope]? = some home
  selects : heap.select? frame name decl.node = some home
  ready : heap.getLocal? home name = none → decl.kind = .var

end Heap

namespace World

variable {known : Analysis} {w : World} {heap : Heap} {frame : FrameId} {scope : ScopeId}

theorem Types.isFor (types : w.Types known heap) (accepted : known.Accepted)
    (home : w.scope? frame = some scope) : heap.IsFor known.notes.symbols frame scope := by
  obtain ⟨found, here⟩ := types.scope_present accepted home
  obtain ⟨⟨_, cls⟩, shaped, rfl⟩ := Option.map_eq_some_iff.mp home
  obtain ⟨stored, present, stands⟩ := types.frame shaped
  refine ⟨fun name node => ?_, types.isSome_class accepted home, fun other is => ?_⟩
  · simp only [Heap.binds, present, Frame.binds]
    constructor
    · intro bound
      split at bound
      · rename_i binding looked
        obtain ⟨decl, member, rfl, isValue, binds⟩ := stands.names.means looked
        obtain ⟨id, declared, means⟩ := accepted.reflects.declaredIn_of_mem here member
        exact ⟨id, decl, declared, means, isValue, binds.node.symm.trans (eq_of_beq bound)⟩
      · cases bound
    · rintro ⟨id, decl, declared, means, isValue, rfl⟩
      obtain ⟨meant, member, meansToo, same⟩ := accepted.reflects.declaredIn declared
      rw [means] at meansToo
      cases meansToo
      subst same
      obtain ⟨binding, looked, binds⟩ := stands.names.binding accepted here member isValue
      simp only [looked, binds.node, beq_self_eq_true]
  · simp only [Heap.class?, present, Option.bind_some, stands.instanceOf] at is
    obtain ⟨around, decl, walked, node, _⟩ := stands.made other is
    rw [node]
    exact accepted.reflects.lookup_memberScopes_of_mem accepted.distinct walked.members

/-- The frame that a resolved name reaches. -/
theorem Types.reaches (types : w.Types known heap) (accepted : known.Accepted)
    (home : w.scope? frame = some scope) {name : String} {position : Nat} {decl : Declaration}
    (resolves : known.notes.Resolves scope name position decl) (isValue : decl.kind ≠ .method) :
    ∃ selected, heap.Reaches known.notes.symbols frame scope name decl selected := by
  obtain ⟨selected, stored, binding, selects, stands, present, looked, binds⟩ :=
    types.select accepted home resolves isValue
  have distinct := accepted.reflects.nodup_chain accepted.ordered scope
  have reached : selected ∈ heap.chain frame := List.mem_of_find?_eq_some selects
  refine ⟨selected, (types.mirrors accepted home).place distinct reached stands, selects, ?_⟩
  intro absent
  simp only [Heap.getLocal?, present, Option.bind_some, Frame.value?, looked] at absent
  exact binds.ready absent

end World

/-! ## Reads and writes -/

/-- The name in an expression that stands for a declaration itself. -/
def Expr.reference? : Expr → Option (Mark × String)
  | .symbol mark name | .constructor mark name | .create mark name => some (mark, name)
  | _ => none

theorem Analysis.Accepted.reference {known : Analysis} (accepted : known.Accepted)
    {scope : ScopeId} {e : Expr} (walked : known.Walked scope e) {mark : Mark} {name : String}
    (refers : e.reference? = some (mark, name)) :
    ∃ decl, known.notes.Resolves scope name mark.span.start.offset decl ∧
      known.notes.declOf? mark.id = some decl := by
  obtain ⟨expectation, step⟩ := walked.step
  cases e with
  | symbol place word =>
    cases refers
    obtain ⟨decl, _, resolves, declared, _⟩ := accepted.symbol walked
    exact ⟨decl, resolves, declared⟩
  | constructor place word =>
    cases refers
    obtain ⟨decl, _, _, resolves, declared, _⟩ :=
      Rule.constructor_of_holds (accepted.rule step rfl)
    exact ⟨decl, resolves, declared⟩
  | create place word =>
    cases refers
    obtain ⟨decl, _, resolves, declared, _⟩ := Rule.create_of_holds (accepted.rule step rfl)
    exact ⟨decl, resolves, declared⟩
  | _ => cases refers

section Steps

variable {notes : Annotations} {frame home : FrameId} {mark : Mark} {name : String}
  {decl : Declaration} {machine after : Machine}

theorem Eval.declNode_of_declared {span : Span} (declared : notes.declOf? mark.id = some decl) :
    Eval.declNode notes mark.id name span machine = .ok decl.node machine := by
  simp only [Eval.declNode, declared]
  rfl

/-- A name is read from the frame that it selects. -/
theorem Eval.read_of_select (declared : notes.declOf? mark.id = some decl)
    (selects : machine.heap.select? frame name decl.node = some home) :
    Eval.read notes frame mark name machine =
      match machine.heap.getLocal? home name with
      | some value => .ok value machine
      | none => .error (.failed ⟨.uninitialised name, mark.span⟩) machine := by
  rw [Eval.read, Eval.bind_ok (declNode_of_declared declared), Eval.inspect_bind, Heap.get_eq,
    selects]
  dsimp only
  cases machine.heap.getLocal? home name with
  | some value => rfl
  | none => rfl

theorem evaluate_assignment {less : Nat} (target e : Expr) :
    evaluate notes (less + 1) (.expr frame (.assign mark target e)) =
      evaluate notes less (.assign frame mark target.bare e) :=
  bind_pure (evaluate notes less (.assign frame mark target.bare e))

/-- An assignment to a name replaces its value in the frame that the name selects after the value
has been evaluated. -/
theorem evaluate_assign_of_select (mark : Mark) {less : Nat} {target : Mark} {e : Expr}
    {given : Value} (declared : notes.declOf? target.id = some decl)
    (ran : evaluate notes less (.expr frame e) machine = .ok given after)
    (selects : after.heap.select? frame name decl.node = some home) :
    evaluate notes (less + 1) (.assign frame mark (.symbol target name) e) machine =
      match after.heap.getLocal? home name with
      | some _ => .ok (given.coerce (notes.typeOf? mark.id)) { after with
          heap := after.heap.modifyNames home
            (Frame.write name (given.coerce (notes.typeOf? mark.id))) }
      | none => .error (.failed ⟨.uninitialised name, target.span⟩) after := by
  refine (Eval.bind_ok (Eval.declNode_of_declared declared)).trans ?_
  refine (Eval.bind_ok ran).trans ?_
  refine (Eval.change_bind _ _).trans ?_
  simp only [Heap.assign_eq, selects, Heap.assignLocal]
  cases after.heap.getLocal? home name with
  | some value => rfl
  | none => rfl

end Steps

/-- No task is excused for a name without a binding. -/
theorem not_excused_of_undefined {notes : Annotations} {task : Task} {name : String} {span : Span} :
    ¬ Excused notes task (.failed ⟨.fault (.undefinedName name), span⟩) := by
  intro excused
  unfold Excused at excused
  split at excused
  · cases excused.2
  · cases excused
  · exact excused

namespace World

variable {known : Analysis} {w : World} {machine : Machine} {frame : FrameId} {scope : ScopeId}

/-- What a name in an expression refers to is read from the frame that the name reaches, and is
never found to be undefined. -/
theorem Types.reads (types : w.Types known machine.heap) (accepted : known.Accepted)
    (home : w.scope? frame = some scope) {e : Expr} (walked : known.Walked scope e) {mark : Mark}
    {name : String} {decl : Declaration} (refers : e.reference? = some (mark, name))
    (declared : known.notes.declOf? mark.id = some decl) (isValue : decl.kind ≠ .method) :
    (∃ home, machine.heap.Reaches known.notes.symbols frame scope name decl home ∧
      Eval.read known.notes frame mark name machine =
        match machine.heap.getLocal? home name with
        | some value => .ok value machine
        | none => .error (.failed ⟨.uninitialised name, mark.span⟩) machine) ∧
      ∀ less span after, evaluate known.notes less (.expr frame e) machine ≠
        .error (.failed ⟨.fault (.undefinedName name), span⟩) after := by
  obtain ⟨meant, resolves, declaredToo⟩ := accepted.reference walked refers
  rw [declared] at declaredToo
  cases declaredToo
  obtain ⟨selected, reaches⟩ := types.reaches accepted home resolves isValue
  refine ⟨⟨selected, reaches, Eval.read_of_select declared reaches.selects⟩, ?_⟩
  intro less span after ended
  obtain ⟨visit, _, excused, _⟩ := visit_of_fault accepted (.expr home walked) types ended rfl
  exact not_excused_of_undefined excused

/-- What is assigned to a name is written to the frame that the name reaches after the value has
been evaluated, and the frames around are still the same by then. -/
theorem Types.writes (types : w.Types known machine.heap) (accepted : known.Accepted)
    (home : w.scope? frame = some scope) {mark word : Mark} {target value : Expr} {name : String}
    {decl : Declaration} (walked : known.Walked scope (.assign mark target value))
    (bare : target.bare = .symbol word name) (declared : known.notes.declOf? word.id = some decl)
    {less : Nat} {given : Value} {after : Machine}
    (ran : evaluate known.notes less (.expr frame value) machine = .ok given after) :
    after.heap.chain frame = machine.heap.chain frame ∧
      ∃ home, after.heap.Reaches known.notes.symbols frame scope name decl home ∧
        evaluate known.notes (less + 2) (.expr frame (.assign mark target value)) machine =
          match after.heap.getLocal? home name with
          | some _ => .ok (given.coerce (known.notes.typeOf? mark.id)) { after with
              heap := after.heap.modifyNames home
                (Frame.write name (given.coerce (known.notes.typeOf? mark.id))) }
          | none => .error (.failed ⟨.uninitialised name, word.span⟩) after := by
  obtain ⟨expectation, step⟩ := walked.step
  obtain ⟨assignable, _⟩ := Rule.assign_holds_iff.mp (accepted.rule step rfl)
  obtain ⟨targetWalked, _⟩ := Clause.bare_of_walked accepted (walked.part List.mem_cons_self)
  have valueWalked := walked.part (List.mem_cons_of_mem target List.mem_cons_self)
  rw [bare] at assignable targetWalked
  obtain ⟨meant, _, resolves, declaredToo, _⟩ := accepted.symbol targetWalked
  rw [declared] at declaredToo
  cases declaredToo
  have isValue : decl.kind ≠ .method := by
    obtain ⟨other, otherDeclared, kind⟩ := assignable
    rw [declared] at otherDeclared
    cases otherDeclared
    rcases kind with kind | kind | kind <;> simp [kind]
  have ends := evaluate_sound accepted less (.expr home valueWalked) machine types
  rw [ran] at ends
  obtain ⟨later, grown, typesLater, _⟩ := ends
  have homeLater := scope?_mono grown home
  obtain ⟨selected, reaches⟩ := typesLater.reaches accepted homeLater resolves isValue
  refine ⟨types.chain_eq typesLater grown home, selected, reaches, ?_⟩
  rw [evaluate_assignment, bare]
  exact evaluate_assign_of_select mark declared ran reaches.selects

end World

end BoxScript
