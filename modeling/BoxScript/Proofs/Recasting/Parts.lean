import BoxScript.Proofs.Recasting.Steps
import BoxScript.Proofs.Running.Parts

/-!
# Parts of expressions in two runs

Reading and replacing the values of names, elements, fields and members, and what is built in: under
two annotations that say the same, each of these steps mirrors the same step with what it is given
cast anew. A variable is looked up under the name that it has in the tree cast anew.
-/

set_option autoImplicit false

namespace BoxScript

namespace Rerun

variable {rerun : Rerun} {w : World} {frame : FrameId} {mark : Mark} {span : Span}

/-! ## What names mean -/

namespace Faithful

variable (faithful : rerun.Faithful)

include faithful

/-- What a node refers to is declared by the same node in both runs. -/
theorem meets {step : Step} (walked : step ∈ rerun.known.steps) {node : NodeId}
    (answered : ⟨node, .decl⟩ ∈ step.answers) {decl : Declaration}
    (declared : rerun.known.notes.declOf? node = some decl) :
    ∃ other, rerun.image.declOf? node = some other ∧ decl.Meets other := by
  have related := faithful.decls step walked _ answered rfl
  simp only [declared] at related
  generalize rerun.image.declOf? node = found at related
  cases related with
  | some meets => exact ⟨_, rfl, meets⟩

theorem bound_or_lenient (decl : Option NodeId) (name : String) :
    rerun.lenient ∨ rerun.recast.bound decl name = name := by
  refine faithful.unchanged.imp_right fun unchanged => ?_
  cases decl with
  | none => rfl
  | some id => exact unchanged id name

/-- An error that mentions the name of a variable. -/
theorem causes (cause : String → RuntimeError.Cause) {kind : String}
    (same : ∀ name, (cause name).name = kind) (decl : Option NodeId) (name : String) :
    rerun.Causes (cause name) (cause (rerun.recast.bound decl name)) := by
  rcases faithful.bound_or_lenient decl name with lenient | unchanged
  · exact .inr ⟨lenient, (same _).trans (same _).symm⟩
  · rw [unchanged]
    exact .inl rfl

end Faithful

/-- Whether a reference means a method is the same in both runs. -/
theorem isMethod_eq {node : NodeId} {decl other : Declaration} (meets : decl.Meets other)
    (declared : rerun.known.notes.declOf? node = some decl)
    (declaredToo : rerun.image.declOf? node = some other) :
    Eval.isMethod rerun.image node = Eval.isMethod rerun.known.notes node := by
  rw [Bool.eq_iff_iff, Eval.isMethod_iff declared, Eval.isMethod_iff declaredToo, meets.2]

/-! ## Names -/

section Names

variable {decl other : Declaration} (faithful : rerun.Faithful)
  (spans : rerun.spans mark.span (rerun.recast.span mark.span)) (meets : decl.Meets other)
  (declared : rerun.known.notes.declOf? mark.id = some decl)
  (declaredToo : rerun.image.declOf? mark.id = some other)

theorem steps_declNode {name called : String} {place : Span} (meets : decl.Meets other)
    (declared : rerun.known.notes.declOf? mark.id = some decl)
    (declaredToo : rerun.image.declOf? mark.id = some other) :
    rerun.Steps (Eval.declNode rerun.known.notes mark.id name span)
      (Eval.declNode rerun.image mark.id called place)
      fun node answer => node = decl.node ∧ answer = decl.node := by
  simp only [Eval.declNode, declared, declaredToo]
  exact steps_pure ⟨rfl, meets.1⟩

include faithful spans

theorem steps_slotError {α β : Type} {post : α → β → Prop} (error : SlotError)
    (decl : Option NodeId) (name : String) :
    rerun.Steps (Eval.slotError error name mark.span : Eval α)
      (Eval.slotError error (rerun.recast.bound decl name) (rerun.recast.mark mark).span : Eval β)
      post := by
  cases error with
  | uninitialised =>
    exact steps_fail (faithful.causes .uninitialised (fun _ => rfl) decl name) spans
  | unbound =>
    exact steps_fail (faithful.causes (.fault <| .undefinedName ·) (fun _ => rfl) decl name) spans

include meets declared declaredToo

/-- Reading a name. -/
theorem steps_read {name called : String} (same : called = rerun.recast.bound decl.node name) :
    rerun.Steps (Eval.read rerun.known.notes frame mark name)
      (Eval.read rerun.image frame (rerun.recast.mark mark) called)
      fun value answer => answer = value.recast rerun.recast := by
  subst same
  refine Steps.bind (steps_declNode meets declared declaredToo) ?_
  rintro _ _ ⟨rfl, rfl⟩
  have found : rerun.Steps (Eval.inspect (·.get frame name decl.node))
      (Eval.inspect (·.get frame (rerun.recast.bound decl.node name) decl.node))
      fun result answer => answer = result.map (Value.recast rerun.recast) :=
    steps_inspect fun heap image recasts => recasts.get faithful.injective frame name decl.node
  refine Steps.bind found ?_
  rintro result _ rfl
  cases result with
  | ok value => exact steps_pure rfl
  | error error => exact steps_slotError faithful spans error decl.node name

/-- The type that a name means, which is called as it is. -/
theorem steps_typeNamed {name : String} (same : rerun.recast.bound decl.node name = name) :
    rerun.Steps (Eval.typeNamed rerun.known.notes frame mark name)
      (Eval.typeNamed rerun.image frame (rerun.recast.mark mark) name)
      fun value answer => answer = value.recast rerun.recast := by
  refine Steps.bind (steps_read faithful spans meets declared declaredToo same.symm) ?_
  rintro value _ rfl
  cases value <;> first
    | exact steps_pure rfl
    | exact steps_failSame spans

end Names

/-- A method of an instance. -/
theorem steps_bindMethod {place : Span} (spans : rerun.spans span place) (receiver : FrameId)
    (name : String) :
    rerun.Steps (Eval.bindMethod receiver name span) (Eval.bindMethod receiver name place)
      fun value answer => answer = value.recast rerun.recast := by
  have found : rerun.Steps
      (Eval.inspect fun heap => (heap.class? receiver).bind (·.method? name))
      (Eval.inspect fun heap => (heap.class? receiver).bind (·.method? name))
      fun method answer => answer = method.map (FunctionDecl.recast rerun.recast) := by
    refine steps_inspect fun heap image recasts => ?_
    rw [recasts.class?]
    cases heap.class? receiver with
    | none => rfl
    | some cls => exact cls.method?_recast name
  refine Steps.bind found ?_
  rintro method _ rfl
  cases method with
  | some decl => exact steps_pure rfl
  | none => exact steps_failSame spans

section Walked

variable {scope : ScopeId} {name : String} (faithful : rerun.Faithful)

include faithful

/-- What a name means that does not mean a variable is called as it is. -/
theorem Faithful.bound_of_resolves {decl : Declaration} {position : Nat}
    (resolves : rerun.known.notes.Resolves scope name position decl) (notVar : decl.kind ≠ .var)
    (notParam : decl.kind ≠ .param) : rerun.recast.bound decl.node name = name := by
  obtain ⟨member, same, _⟩ := resolves.place faithful.accepted
  rw [← same]
  exact faithful.bound_of_mem member notVar notParam

/-- The value of a name. -/
theorem steps_symbol (walked : rerun.known.Walked scope (.symbol mark name)) :
    rerun.Steps (Eval.symbol rerun.known.notes frame mark name)
      (Eval.symbol rerun.image frame (rerun.recast.mark mark) (rerun.recast.name mark.id name))
      fun value answer => answer = value.recast rerun.recast := by
  obtain ⟨expectation, step⟩ := walked.step
  obtain ⟨decl, _, resolves, declared, _⟩ := faithful.accepted.symbol walked
  have answered : ⟨mark.id, .decl⟩ ∈ (Step.expr scope expectation (.symbol mark name)).answers := by
    simp [Step.answers, Step.facts, Step.rules, Expr.finding, Rule.symbol, Rule.ofScript]
  obtain ⟨other, declaredToo, meets⟩ := faithful.meets step answered declared
  have spans : rerun.spans mark.span (rerun.recast.span mark.span) := faithful.spans step
  have called := faithful.refers step declared
  simp only [Eval.symbol, Recast.mark_id, isMethod_eq meets declared declaredToo]
  split
  · rename_i isMethod
    have kind := (Eval.isMethod_iff declared).mp isMethod
    rw [called, faithful.bound_of_resolves resolves (by simp [kind]) (by simp [kind])]
    have received : rerun.Steps (Eval.inspect (·.receiver? frame))
        (Eval.inspect (·.receiver? frame)) fun receiver answer => answer = receiver :=
      steps_inspect fun heap image recasts => recasts.receiver? frame
    refine Steps.bind received ?_
    rintro _ receiver rfl
    cases receiver with
    | some receiver => exact steps_bindMethod spans receiver name
    | none => exact steps_failSame spans
  · exact steps_read faithful spans meets declared declaredToo called

/-- The constructor of a struct. -/
theorem steps_constructor (walked : rerun.known.Walked scope (.constructor mark name)) :
    rerun.Steps (Eval.constructor rerun.known.notes frame mark name)
      (Eval.constructor rerun.image frame (rerun.recast.mark mark) name)
      fun value answer => answer = value.recast rerun.recast := by
  obtain ⟨expectation, step⟩ := walked.step
  obtain ⟨decl, named, _, resolves, declared, isNamed, _⟩ :=
    Rule.constructor_of_holds (faithful.accepted.rule step rfl)
  obtain ⟨kind, _⟩ := Declaration.namedType?_struct isNamed
  have answered : ⟨mark.id, .decl⟩ ∈
      (Step.expr scope expectation (.constructor mark name)).answers := by
    simp [Step.answers, Step.facts, Step.rules, Expr.finding, Rule.constructor, Rule.ofScript]
  obtain ⟨other, declaredToo, meets⟩ := faithful.meets step answered declared
  have spans : rerun.spans mark.span (rerun.recast.span mark.span) := faithful.spans step
  refine Steps.bind (steps_typeNamed faithful spans meets declared declaredToo
    (faithful.bound_of_resolves resolves (by simp [kind]) (by simp [kind]))) ?_
  rintro value _ rfl
  cases value with
  | struct cls => exact steps_pure rfl
  | _ => exact steps_failSame spans

/-- The attributes of a box are called as they are. -/
theorem Faithful.bound_attribute {inner : ScopeId} {cls : BoxClass}
    (made : cls.Made rerun.known w inner) {attr : Attribute} (member : attr ∈ cls.attributes) :
    rerun.recast.bound (some attr.decl) attr.name = attr.name := by
  obtain ⟨around, decl, walked, _, attributes, _, _⟩ := made
  rw [attributes] at member
  obtain ⟨name, nameMember, rfl⟩ := List.mem_map.mp member
  obtain ⟨found, present, same⟩ := List.mem_filterMap.mp nameMember
  cases found with
  | meth method => cases same
  | attr attr =>
    cases same
    have declared : Walk.membership inner (.attr name) ∈ Step.contents inner rerun.known.steps := by
      rw [faithful.accepted.contents_eq walked.opened, walked.declared]
      exact List.mem_map.mpr ⟨_, present, rfl⟩
    exact faithful.bound_of_mem declared (by simp [Walk.membership, Walk.named])
      (by simp [Walk.membership, Walk.named])

/-- A new instance of a box. -/
theorem steps_create (home : w.scope? frame = some scope)
    (walked : rerun.known.Walked scope (.create mark name)) :
    rerun.StepsIn w (Eval.create rerun.known.notes frame mark name)
      (Eval.create rerun.image frame (rerun.recast.mark mark) name)
      fun value answer => answer = value.recast rerun.recast := by
  obtain ⟨expectation, step⟩ := walked.step
  obtain ⟨decl, named, resolves, declared, isNamed, _⟩ :=
    Rule.create_of_holds (faithful.accepted.rule step rfl)
  obtain ⟨kind, _⟩ := Declaration.namedType?_box isNamed
  have answered : ⟨mark.id, .decl⟩ ∈ (Step.expr scope expectation (.create mark name)).answers := by
    simp [Step.answers, Step.facts, Step.rules, Expr.finding, Rule.create, Rule.ofScript]
  obtain ⟨other, declaredToo, meets⟩ := faithful.meets step answered declared
  have spans : rerun.spans mark.span (rerun.recast.span mark.span) := faithful.spans step
  have named : rerun.Steps (Eval.typeNamed rerun.known.notes frame mark name)
      (Eval.typeNamed rerun.image frame (rerun.recast.mark mark) name)
      fun value answer => answer = value.recast rerun.recast :=
    steps_typeNamed faithful spans meets declared declaredToo
      (faithful.bound_of_resolves resolves (by simp [kind]) (by simp [kind]))
  have safe : Eval.Safe rerun.known (fun _ => True) w
      (Eval.typeNamed rerun.known.notes frame mark name) fun later value =>
        later.Fits rerun.known decl (.type value) :=
    Eval.safe_typeNamed faithful.accepted home resolves declared (.inr kind)
  refine StepsIn.bind safe named.inside ?_
  rintro later value _ _ fits rfl
  simp only [World.Fits, kind] at fits
  obtain ⟨cls, inner, is, made, _⟩ := fits
  cases is
  have instances : rerun.Steps (Eval.change (·.newInstance cls))
      (Eval.change (·.newInstance (cls.recast rerun.recast))) fun made answer => answer = made :=
    steps_change fun heap image recasts =>
      recasts.newInstance cls fun _ member => faithful.bound_attribute made member
  refine (Steps.bind instances ?_).inside
  rintro _ made rfl
  exact steps_pure rfl

end Walked

/-! ## Elements -/

section Values

variable {place : Span} (spans : rerun.spans span place) (value : Value)

theorem steps_row (row : RowId) :
    rerun.Steps (Eval.inspect (·.row row)) (Eval.inspect (·.row row))
      fun values answer => answer = values.map (Value.recast rerun.recast) :=
  steps_inspect fun _ _ recasts => recasts.row row

theorem steps_length (row : RowId) :
    rerun.Steps (Eval.inspect fun heap => (heap.row row).size)
      (Eval.inspect fun heap => (heap.row row).size) fun length answer => answer = length := by
  refine steps_inspect fun heap image recasts => ?_
  rw [recasts.row, Array.size_map]

include spans

theorem steps_expectBool :
    rerun.Steps (Eval.expectBool value span) (Eval.expectBool (value.recast rerun.recast) place)
      fun truth answer => answer = truth := by
  cases value with
  | bool truth => exact steps_pure rfl
  | _ => exact steps_failSame spans

theorem steps_expectIndex (length : Nat) :
    rerun.Steps (Eval.expectIndex value length span)
      (Eval.expectIndex (value.recast rerun.recast) length place)
      fun index answer => answer = index := by
  cases value with
  | int index =>
    simp only [Value.recast, Eval.expectIndex]
    split
    · exact steps_pure rfl
    · exact steps_failSame spans
  | _ => exact steps_failSame spans

theorem steps_expectArray (use : Use) :
    rerun.Steps (Eval.expectArray value use span)
      (Eval.expectArray (value.recast rerun.recast) use place) fun row answer => answer = row := by
  cases value with
  | array row => exact steps_pure rfl
  | _ => exact steps_failSame spans

/-- The element of an array. -/
theorem steps_readElement (index : Value) :
    rerun.Steps (Eval.readElement value index span)
      (Eval.readElement (value.recast rerun.recast) (index.recast rerun.recast) place)
      fun value answer => answer = value.recast rerun.recast := by
  refine Steps.bind (steps_expectArray spans value .indexing) ?_
  rintro _ row rfl
  refine Steps.bind (steps_row row) ?_
  rintro elements _ rfl
  rw [Array.size_map]
  refine Steps.bind (steps_expectIndex spans index elements.size) ?_
  rintro _ position rfl
  refine steps_pure ?_
  rw [Array.getElem?_map]
  cases elements[position]? <;> rfl

theorem steps_assignElement (index stored : Value) :
    rerun.Steps (Eval.assignElement value index stored span)
      (Eval.assignElement (value.recast rerun.recast) (index.recast rerun.recast)
        (stored.recast rerun.recast) place) fun _ _ => True := by
  refine Steps.bind (steps_expectArray spans value .assigningElement) ?_
  rintro _ row rfl
  refine Steps.bind (steps_length row) ?_
  rintro _ length rfl
  refine Steps.bind (steps_expectIndex spans index length) ?_
  rintro _ position rfl
  exact steps_update fun heap image recasts => recasts.setItem row position stored

/-! ## Fields -/

/-- The field of a struct, or the length of an array. -/
theorem steps_readField (name : String) :
    rerun.Steps (Eval.readField value name span)
      (Eval.readField (value.recast rerun.recast) name place)
      fun value answer => answer = value.recast rerun.recast := by
  cases value with
  | array row =>
    by_cases isLength : name = "length"
    · subst isLength
      refine Steps.bind (steps_length row) ?_
      rintro _ length rfl
      exact steps_pure rfl
    · have refused : ∀ span, Eval.readField (.array row) name span =
          Eval.fault (.noFieldOn name .array) span := by
        intro span
        unfold Eval.readField
        split
        · exact absurd rfl isLength
        · rename_i is
          cases is
        · rename_i is
          cases is
        · rfl
      rw [refused, show (Value.array row).recast rerun.recast = .array row from rfl, refused]
      exact steps_failSame spans
  | struct cls row =>
    refine Steps.bind (steps_row row) ?_
    rintro fields _ rfl
    have found : (cls.fieldIndex? name).bind ((fields.map (Value.recast rerun.recast))[·]?) =
        ((cls.fieldIndex? name).bind (fields[·]?)).map (Value.recast rerun.recast) := by
      cases cls.fieldIndex? name <;> simp
    rw [found]
    cases (cls.fieldIndex? name).bind (fields[·]?) with
    | some value => exact steps_pure rfl
    | none => exact steps_failSame spans
  | _ => exact steps_failSame spans

theorem steps_assignField (name : String) (stored : Value) :
    rerun.Steps (Eval.assignField value name stored span)
      (Eval.assignField (value.recast rerun.recast) name (stored.recast rerun.recast) place)
      fun _ _ => True := by
  cases value with
  | struct cls row =>
    simp only [Value.recast, Eval.assignField]
    cases cls.fieldIndex? name with
    | some position =>
      exact steps_update fun heap image recasts => recasts.setItem row position stored
    | none => exact steps_failSame spans
  | _ => exact steps_failSame spans

end Values

/-! ## Members -/

section Members

variable {named : NamedType} {value : Value}

/-- A frame is an instance of a box. -/
theorem isSome_class {heap : Heap} {inner : ScopeId} {cls : BoxClass}
    (types : w.Types rerun.known heap) (instanceOf : w.frames[frame]? = some (inner, some cls)) :
    (heap.class? frame).isSome = true := by
  obtain ⟨stored, present, stands⟩ := types.frame instanceOf
  simp only [Heap.class?, present, Option.bind_some, stands.instanceOf, Option.isSome_some]

/-- The method or attribute of an instance. -/
theorem steps_readMember {place : Mark} (spans : rerun.spans mark.span place.span)
    (sameMethod : Eval.isMethod rerun.image place.id = Eval.isMethod rerun.known.notes mark.id)
    (shape : w.HasShape rerun.known (.box named) value) (name : String) :
    rerun.StepsIn w (Eval.readMember rerun.known.notes mark value name)
      (Eval.readMember rerun.image place (value.recast rerun.recast) name)
      fun value answer => answer = value.recast rerun.recast := by
  cases shape with
  | null => exact (steps_failSame spans).inside
  | @box _ frame inner cls instanceOf _ =>
    change rerun.StepsIn w (Eval.readMember rerun.known.notes mark (.box frame) name)
      (Eval.readMember rerun.image place (.box frame) name) _
    simp only [Eval.readMember, sameMethod]
    split
    · exact (steps_bindMethod spans frame name).inside
    · intro machine image types machines
      have read : rerun.Ends (fun found answer => answer = found.map (Value.recast rerun.recast))
          (Eval.inspect (·.getLocal? frame name) machine)
          (Eval.inspect (·.getLocal? frame name) image) :=
        .ok (machines.heap.getLocal? (isSome_class types instanceOf) name) machines
      refine read.bind ?_
      rintro found _ _ _ _ rfl recasts
      cases found with
      | some value => exact .ok rfl recasts
      | none => exact .failed (.inl rfl) spans recasts

/-- Replacing the value of an attribute. -/
theorem steps_assignMember (faithful : rerun.Faithful) {place : Span}
    (spans : rerun.spans span place) (shape : w.HasShape rerun.known (.box named) value)
    (name : String) (stored : Value) :
    rerun.StepsIn w (Eval.assignMember value name stored span)
      (Eval.assignMember (value.recast rerun.recast) name (stored.recast rerun.recast) place)
      fun _ _ => True := by
  cases shape with
  | null => exact (steps_failSame spans).inside
  | @box _ frame inner cls instanceOf _ =>
    intro machine image types machines
    obtain ⟨same, after⟩ := machines.heap.assignAttribute faithful.injective
      (isSome_class types instanceOf) name stored
    have replaced : rerun.Ends (fun done answer => answer = done)
        (Eval.change (·.assignLocal frame name stored) machine)
        (Eval.change (·.assignLocal frame name (stored.recast rerun.recast)) image) :=
      .ok same ⟨after, machines.output⟩
    refine replaced.bind ?_
    rintro _ done _ _ _ rfl recasts
    cases done with
    | true => exact .ok trivial recasts
    | false => exact .failed (.inl rfl) spans recasts

end Members

/-! ## Calls and operators -/

/-- A new struct. -/
theorem steps_construct (cls : StructClass) (arguments : List Value) :
    rerun.Steps (Eval.construct cls arguments)
      (Eval.construct cls (arguments.map (Value.recast rerun.recast)))
      fun value answer => answer = value.recast rerun.recast := by
  have fields : (arguments.map (Value.recast rerun.recast)).zipWith
      (fun value field => value.coerce (some field.2)) cls.fields =
        (arguments.zipWith (fun value field => value.coerce (some field.2)) cls.fields).map
          (Value.recast rerun.recast) := by
    rw [List.zipWith_map_left, List.map_zipWith]
    simp only [Value.coerce_recast]
  have made : ∀ values : List Value, rerun.Steps (Eval.change (·.newRow values.toArray))
      (Eval.change (·.newRow (values.map (Value.recast rerun.recast)).toArray))
      fun row answer => answer = row := by
    intro values
    rw [← List.map_toArray]
    exact steps_change fun heap image recasts => recasts.newRow values.toArray
  simp only [Eval.construct, fields]
  refine Steps.bind (made _) ?_
  rintro _ row rfl
  exact steps_pure rfl

/-- A call of a builtin function. -/
theorem steps_callBuiltin {place : Span} (spans : rerun.spans span place) (function : Builtin)
    (arguments : List Value) :
    rerun.Steps (Eval.callBuiltin function arguments span)
      (Eval.callBuiltin function (arguments.map (Value.recast rerun.recast)) place)
      fun value answer => answer = value.recast rerun.recast := by
  cases function
  match arguments with
  | [argument] =>
    refine Steps.bind (steps_textOf argument) ?_
    rintro _ text rfl
    have written : rerun.Steps (Eval.writeLine text span) (Eval.writeLine text place)
        fun _ _ => True :=
      Steps.bind (steps_write text spans) fun _ _ _ => steps_write "\n" spans
    exact Steps.bind written fun _ _ _ => steps_pure rfl
  | [] => exact steps_failSame spans
  | first :: second :: rest =>
    simp only [List.map_cons, Eval.callBuiltin, List.length_cons, List.length_map]
    exact steps_failSame spans

/-- A binary operator on evaluated operands. -/
theorem steps_binary {place : Mark} (spans : rerun.spans mark.span place.span)
    (typed : rerun.image.typeOf? place.id = rerun.known.notes.typeOf? mark.id) (op : BinaryOp)
    (left right : Value) :
    rerun.Steps (Eval.binary rerun.known.notes mark op left right)
      (Eval.binary rerun.image place op (left.recast rerun.recast) (right.recast rerun.recast))
      fun value answer => answer = value.recast rerun.recast := by
  simp only [Eval.binary, typed]
  split
  · refine Steps.bind (steps_textOf left) ?_
    rintro _ first rfl
    refine Steps.bind (steps_textOf right) ?_
    rintro _ second rfl
    exact steps_pure rfl
  · rw [Value.binary_recast]
    exact steps_lift spans

end Rerun

end BoxScript
