import BoxScript.Proofs.Running.Expectation
import BoxScript.Proofs.Running.Receivers

/-!
# Names are read and written safely

A name that stands in the scope of a frame is found along the chain of the frame, and its value fits
what it was found to mean. The only error of a read or a write is that of a variable whose
declaration has not run. The one fault is that of a method that is a member of a box further out
than the innermost one.
-/

set_option autoImplicit false

namespace BoxScript

/-! ## Rules of walked expressions -/

namespace Walk

theorem mem_expr_self (scope : ScopeId) (expectation : Expectation) (e : Expr) :
    Step.expr scope expectation e ∈ expr scope expectation e := by
  cases e <;> simp [expr]

end Walk

namespace Analysis

variable {known : Analysis} {scope : ScopeId} {e : Expr}

theorem Walked.step (walked : known.Walked scope e) :
    ∃ expectation, .expr scope expectation e ∈ known.steps := by
  obtain ⟨expectation, subset⟩ := walked
  exact ⟨expectation, subset (Walk.mem_expr_self scope expectation e)⟩

theorem Accepted.symbol (accepted : known.Accepted) {mark : Mark} {name : String}
    (walked : known.Walked scope (.symbol mark name)) :
    ∃ decl ty, known.notes.Resolves scope name mark.span.start.offset decl ∧
      known.notes.declOf? mark.id = some decl ∧ decl.type? known.notes = some ty ∧
      known.notes.typeOf? mark.id = some ty := by
  obtain ⟨expectation, step⟩ := walked.step
  exact Rule.symbol_of_holds (accepted.rule step rfl)

/-- The types of a function that the walk has gone through. -/
theorem Accepted.signature (accepted : known.Accepted) {inner : ScopeId} {decl : FunctionDecl}
    (walked : Walk.FunctionWalked known.steps scope inner decl) :
    ∃ params result,
      List.Forall₂ (fun parameter ty => known.notes.typeOf? parameter.type.id = some ty)
        decl.parameters params ∧
      Rule.resultType? known.notes decl = some result ∧
      known.notes.declType? decl.mark.id = some (.function params result) :=
  Rule.signature_holds_iff.mp (accepted.holds _ walked.signature _ List.mem_cons_self)

end Analysis

/-- Whether a reference means a method is told by its declaration. -/
theorem Eval.isMethod_iff {notes : Annotations} {node : NodeId} {decl : Declaration}
    (declared : notes.declOf? node = some decl) :
    Eval.isMethod notes node = true ↔ decl.kind = .method := by
  obtain ⟨name, kind, home, scope, position, span⟩ := decl
  simp only [Eval.isMethod, declared]
  cases kind <;> simp

namespace World

variable {known : Analysis} {w : World} {heap : Heap} {frame : FrameId} {scope : ScopeId}
  {name : String} {position : Nat} {decl : Declaration}

/-! ## Values of names -/

/-- A method that is bound to an instance of its box has the type that it was declared with. -/
theorem hasShape_method (accepted : known.Accepted) {receiver : FrameId} {inner : ScopeId}
    {cls : BoxClass} (shaped : w.frames[receiver]? = some (inner, some cls))
    (made : cls.Made known w inner) {method : FunctionDecl} (member : method ∈ cls.methods)
    {ty : Ty} (typed : known.notes.declType? method.mark.id = some ty) :
    w.HasShape known ty (.method receiver method) := by
  obtain ⟨around, decl, walked, _, _, methods, _⟩ := made
  obtain ⟨home, through⟩ := walked.methods method (methods ▸ member)
  obtain ⟨params, result, _, _, declared⟩ := accepted.signature through
  rw [typed] at declared
  cases declared
  exact .function (.method ⟨inner, home, through, scope?_of_frames shaped, typed⟩ shaped member)
    (Ty.same_refl _)

/-- What fits a declaration has the shape of its type. -/
theorem Fits.hasShape {value : Value} {ty : Ty} (fits : w.Fits known decl value)
    (typed : decl.type? known.notes = some ty) : w.HasShape known ty value := by
  unfold Fits at fits
  unfold Declaration.type? at typed
  split at fits
  · rename_i kind
    obtain ⟨cls, rfl, _⟩ := fits
    simp only [kind, DeclKind.isType, if_true] at typed
    cases typed
    exact .type
  · rename_i kind
    obtain ⟨cls, inner, rfl, _⟩ := fits
    simp only [kind, DeclKind.isType, if_true] at typed
    cases typed
    exact .type
  · rename_i ty kind
    subst fits
    simp only [kind, DeclKind.isType, if_true] at typed
    cases typed
    exact .type
  · rename_i function kind
    subst fits
    simp only [kind] at typed
    cases typed
    cases function
    exact .function .builtin (Ty.same_refl _)
  · rename_i noStruct noBox noType noFunction
    obtain ⟨found, declared, shape⟩ := fits
    split at typed
    · exact absurd ‹_› (noFunction _)
    · have noType : decl.kind.isType = false := by
        cases kind : decl.kind with
        | struct => exact absurd kind noStruct
        | box => exact absurd kind noBox
        | builtinType ty => exact absurd kind (noType ty)
        | _ => rfl
      rw [noType, declared] at typed
      cases typed
      exact shape

/-- Reading a name. -/
theorem Types.get (types : w.Types known heap) (accepted : known.Accepted)
    (home : w.scope? frame = some scope) (resolves : known.notes.Resolves scope name position decl)
    (value : decl.kind ≠ .method) :
    (∃ value, heap.get frame name decl.node = .ok value ∧ w.Fits known decl value) ∨
      (heap.get frame name decl.node = .error .uninitialised ∧ decl.kind = .var) := by
  obtain ⟨selected, stored, binding, selects, _, present, looked, binds⟩ :=
    types.select accepted home resolves value
  simp only [Heap.get_eq, selects, Heap.getLocal?, present, Option.bind_some, Frame.value?, looked]
  cases held : binding.value with
  | some value => exact .inl ⟨value, rfl, binds.fits value held⟩
  | none => exact .inr ⟨rfl, binds.ready held⟩

/-- Replacing the value of a name. -/
theorem Types.assign (types : w.Types known heap) (accepted : known.Accepted)
    (home : w.scope? frame = some scope) (resolves : known.notes.Resolves scope name position decl)
    (isValue : decl.kind ≠ .method) {value : Value} (fits : w.Fits known decl value) :
    w.Types known (heap.assign frame name decl.node value).2 ∧
      ((heap.assign frame name decl.node value).1 = .ok () ∨
        (heap.assign frame name decl.node value).1 = .error .uninitialised) := by
  obtain ⟨selected, stored, binding, selects, stands, present, looked, binds⟩ :=
    types.select accepted home resolves isValue
  obtain ⟨member, same, _⟩ := resolves.place accepted
  simp only [Heap.assign_eq, selects, Heap.assignLocal, Heap.getLocal?, present, Option.bind_some,
    Frame.value?, looked]
  cases held : binding.value with
  | none => exact ⟨types, .inr rfl⟩
  | some old =>
    refine ⟨types.modifyNames ?_, .inl rfl⟩
    intro found names standsToo conform
    rw [stands] at standsToo
    cases standsToo
    obtain ⟨_, here⟩ := types.scope_present accepted stands
    refine conform.write fun other otherMember otherName _ => ?_
    rw [accepted.reflects.eq_of_name here otherMember member (otherName.trans same.symm)]
    exact fits

end World

namespace Eval

variable {known : Analysis} {w : World} {excuse : Halt → Prop} {frame : FrameId} {scope : ScopeId}
  {mark : Mark} {name : String}

/-! ## Reading names -/

theorem safe_declNode {decl : Declaration} {span : Span} {post : World → Option NodeId → Prop}
    (declared : known.notes.declOf? mark.id = some decl) (holds : post w decl.node) :
    Safe known excuse w (declNode known.notes mark.id name span) post := by
  simp only [declNode, declared]
  exact safe_pure holds

theorem safe_uninitialised {α : Type} {span : Span} {post : World → α → Prop} :
    Safe known excuse w (slotError .uninitialised name span) post :=
  safe_fail fun fault => by simp [Halt.isFault] at fault

/-- The value that a name is bound to fits what the name means. -/
theorem safe_read {decl : Declaration} {position : Nat} (accepted : known.Accepted)
    (home : w.scope? frame = some scope) (resolves : known.notes.Resolves scope name position decl)
    (declared : known.notes.declOf? mark.id = some decl) (isValue : decl.kind ≠ .method) :
    Safe known excuse w (read known.notes frame mark name) fun later value =>
      later.Fits known decl value := by
  have declNode : Safe known excuse w (declNode known.notes mark.id name mark.span)
      fun _ node => node = decl.node := safe_declNode declared rfl
  refine safe_bind declNode fun later node grown is => ?_
  subst is
  have found : Safe known excuse later (inspect (·.get frame name decl.node)) fun last result =>
      (∃ value, result = .ok value ∧ last.Fits known decl value) ∨
        result = .error .uninitialised := by
    refine safe_inspect fun heap types => ?_
    rcases types.get accepted (World.scope?_mono grown home) resolves isValue with
      ⟨value, read, fits⟩ | ⟨read, _⟩
    · exact .inl ⟨value, read, fits⟩
    · exact .inr read
  refine safe_bind found fun last result further outcome => ?_
  rcases outcome with ⟨value, rfl, fits⟩ | rfl
  · exact safe_pure fits
  · exact safe_uninitialised

theorem inspect_bind {α β : Type} (question : Heap → α) (next : α → Eval β) (machine : Machine) :
    (inspect question >>= next) machine = next (question machine.heap) machine :=
  rfl

/-- The value of a name that means a method: the method of that name of the receiver. -/
theorem symbol_of_method {notes : Annotations} {machine : Machine} {receiver : FrameId}
    {cls : BoxClass} (method : isMethod notes mark.id = true)
    (received : machine.heap.receiver? frame = some receiver)
    (class? : machine.heap.class? receiver = some cls) :
    symbol notes frame mark name machine =
      match cls.method? name with
      | some decl => .ok (.method receiver decl) machine
      | none => .error (.failed ⟨.fault (.noMethod name), mark.span⟩) machine := by
  simp only [symbol, if_pos method, inspect_bind, received, bindMethod, class?, Option.bind_some]
  cases cls.method? name with
  | some decl => rfl
  | none => rfl

/-- A bare name has a value of its type. If it means a method of a box further out, it has none. -/
theorem safe_symbol (accepted : known.Accepted) (home : w.scope? frame = some scope)
    (walked : known.Walked scope (.symbol mark name))
    (excused : isMethod known.notes mark.id = true →
      excuse (.failed ⟨.fault (.noMethod name), mark.span⟩)) :
    Safe known excuse w (symbol known.notes frame mark name) fun later value =>
      later.Yields known (.symbol mark name) value := by
  obtain ⟨decl, ty, resolves, declared, declType, typed⟩ := accepted.symbol walked
  by_cases isMethod : isMethod known.notes mark.id = true
  · have method := (isMethod_iff declared).mp isMethod
    intro machine types
    obtain ⟨inner, receiver, cls, _, received, shaped, class?, same, other⟩ :=
      types.receiver accepted home resolves method
    rw [symbol_of_method isMethod received class?]
    by_cases here : inner = decl.scope
    · obtain ⟨found, inMethods, looked, is⟩ := same here
      rw [looked]
      refine ⟨w, le_refl w, types, ty, typed, ?_⟩
      obtain ⟨stored, _, conforms⟩ := types.frame shaped
      refine World.hasShape_method accepted shaped (conforms.made cls rfl) inMethods ?_
      rw [is] at declType
      exact declType
    · rw [other here]
      exact ⟨⟨w, le_refl w, types⟩, fun _ => excused isMethod⟩
  · have value : decl.kind ≠ .method := fun kind => isMethod ((isMethod_iff declared).mpr kind)
    rw [symbol, if_neg isMethod]
    exact (safe_read accepted home resolves declared value).mono
      fun later result _ fits => ⟨ty, typed, fits.hasShape declType⟩

/-! ## Naming types -/

/-- The type that a name means. -/
theorem safe_typeNamed {decl : Declaration} {position : Nat} (accepted : known.Accepted)
    (home : w.scope? frame = some scope) (resolves : known.notes.Resolves scope name position decl)
    (declared : known.notes.declOf? mark.id = some decl)
    (kind : decl.kind = .struct ∨ decl.kind = .box) :
    Safe known excuse w (typeNamed known.notes frame mark name) fun later value =>
      later.Fits known decl (.type value) := by
  have isValue : decl.kind ≠ .method := by rcases kind with kind | kind <;> simp [kind]
  refine safe_bind (safe_read accepted home resolves declared isValue) ?_
  intro later value grown fits
  have isType : ∃ type, value = .type type := by
    rcases kind with kind | kind
    · simp only [World.Fits, kind] at fits
      obtain ⟨cls, rfl, _⟩ := fits
      exact ⟨_, rfl⟩
    · simp only [World.Fits, kind] at fits
      obtain ⟨cls, inner, rfl, _⟩ := fits
      exact ⟨_, rfl⟩
  obtain ⟨type, rfl⟩ := isType
  exact safe_pure fits

end Eval

/-- What declares a struct. -/
theorem Declaration.namedType?_struct {decl : Declaration} {named : NamedType}
    (is : decl.namedType? = some (.struct named)) :
    decl.kind = .struct ∧ decl.node = some named.decl := by
  unfold Declaration.namedType? at is
  split at is
  · rename_i kind node
    cases is
    exact ⟨kind, node⟩
  · cases is
  · cases is

/-- What declares a box. -/
theorem Declaration.namedType?_box {decl : Declaration} {named : NamedType}
    (is : decl.namedType? = some (.box named)) :
    decl.kind = .box ∧ decl.node = some named.decl := by
  unfold Declaration.namedType? at is
  split at is
  · cases is
  · rename_i kind node
    cases is
    exact ⟨kind, node⟩
  · cases is

/-- The fields of a struct have the types that its constructor takes. -/
theorem StructClass.Made.fields_eq {known : Analysis} {cls : StructClass} (made : cls.Made known)
    (accepted : known.Accepted) {types : List Ty}
    (typed : List.Forall₂ (fun field ty => field.node.bind known.notes.declType? = some ty)
      (known.notes.symbols.members cls.decl) types) : cls.fields.map (·.2) = types := by
  obtain ⟨around, inner, decl, walked, node, fields⟩ := made
  rw [node, accepted.reflects.members_eq accepted.distinct accepted.ordered walked.opened
    walked.members, walked.declared] at typed
  rw [fields, List.map_map]
  generalize decl.fields = names at typed
  induction names generalizing types with
  | nil =>
    cases typed
    rfl
  | cons name rest ih =>
    cases typed with
    | cons first others =>
      rw [List.map_cons, ih others]
      have declared : known.notes.declType? name.mark.id = some _ := first
      simp only [Function.comp_apply, Eval.declaredType, declared, Option.getD_some]

/-- A constructor gives a function that makes structs. -/
theorem Eval.safe_constructor {known : Analysis} {w : World} {excuse : Halt → Prop}
    {frame : FrameId} {scope : ScopeId} {mark : Mark} {name : String} (accepted : known.Accepted)
    (home : w.scope? frame = some scope) (walked : known.Walked scope (.constructor mark name)) :
    Safe known excuse w (constructor known.notes frame mark name) fun later value =>
      later.Yields known (.constructor mark name) value := by
  obtain ⟨expectation, step⟩ := walked.step
  obtain ⟨decl, named, types, resolves, declared, isNamed, fields, typed⟩ :=
    Rule.constructor_of_holds (accepted.rule step rfl)
  obtain ⟨kind, node⟩ := Declaration.namedType?_struct isNamed
  refine safe_bind (safe_typeNamed accepted home resolves declared (.inl kind)) ?_
  intro later value grown fits
  simp only [World.Fits, kind] at fits
  obtain ⟨cls, is, made, same⟩ := fits
  cases is
  rw [node] at same
  have same : named.decl = cls.decl := Option.some.inj same
  rw [same] at fields
  have fieldTypes := made.fields_eq accepted fields
  refine safe_pure ⟨_, typed, .function (.constructor made) ?_⟩
  rw [fieldTypes]
  simp only [Ty.same, Ty.sameAll_refl, same, beq_self_eq_true, Bool.and_self]

end BoxScript
