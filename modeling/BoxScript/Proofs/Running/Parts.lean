import BoxScript.Proofs.Running.Making
import BoxScript.Proofs.Running.Operators

/-!
# Elements, fields and members

Elements of arrays, fields of structs and members of boxes are read and assigned safely through
values of the types that were found for them. A value of such a type may be `null`, and an index may
be out of bounds; these are the only errors.
-/

set_option autoImplicit false

namespace BoxScript

open Walk Step

namespace World

variable {known : Analysis} {w : World} {heap : Heap} {value : Value}

/-! ## Replacing a value of a row -/

theorem Holds.setElement {component : Ty} {values : Array Value} {place : Nat}
    (holds : w.Holds known (.elements component) values)
    (shape : w.HasShape known component value) :
    w.Holds known (.elements component) (values.setIfInBounds place value) := by
  intro other member
  rw [Array.mem_iff_getElem?] at member
  obtain ⟨i, found⟩ := member
  rw [Array.getElem?_setIfInBounds] at found
  split at found
  · split at found
    · cases found
      exact shape
    · cases found
  · exact holds other (Array.mem_of_getElem? found)

theorem Holds.setField {types : List Ty} {values : Array Value} {place : Nat} {ty : Ty}
    (holds : w.Holds known (.fields types) values) (typed : types[place]? = some ty)
    (shape : w.HasShape known ty value) :
    w.Holds known (.fields types) (values.setIfInBounds place value) := by
  simp only [Holds, Array.toList_setIfInBounds] at holds ⊢
  generalize values.toList = items at holds
  induction holds generalizing place with
  | nil => cases typed
  | cons first _ ih =>
    cases place with
    | zero =>
      cases typed
      exact .cons shape ‹_›
    | succ place => exact .cons first (ih typed)

end World

/-- The field of a struct that a declaration of its member scope declares. -/
theorem StructClass.Made.field {known : Analysis} {cls : StructClass} (made : cls.Made known)
    (accepted : known.Accepted) {name : String} {id : DeclId} {decl : Declaration}
    (found : known.notes.symbols.lookupMember? cls.decl name = some id)
    (present : known.notes.symbols.decls[id]? = some decl) {ty : Ty}
    (typed : decl.node.bind known.notes.declType? = some ty) :
    ∃ place, cls.fieldIndex? name = some place ∧ (cls.fields.map (·.2))[place]? = some ty := by
  obtain ⟨around, inner, struct, walked, node, fields⟩ := made
  rw [node] at found
  obtain ⟨member, named⟩ :=
    accepted.reflects.lookupMember_eq accepted.distinct walked.members found present
  have contents := (accepted.contents_eq walked.opened).trans walked.declared
  obtain ⟨names, order, opened⟩ := accepted.reflects.opened walked.opened
  have isField : ∀ field ∈ struct.fields, Walk.named inner .field field ∈
      Step.contents inner known.steps := by
    intro field fieldMember
    rw [contents]
    exact List.mem_map.mpr ⟨field, fieldMember, rfl⟩
  rw [contents] at member
  obtain ⟨field, fieldMember, rfl⟩ := List.mem_map.mp member
  -- The first field of that name is this one, for there is only one.
  obtain ⟨place, first⟩ : ∃ place, cls.fieldIndex? name = some place := by
    cases looked : cls.fieldIndex? name with
    | some place => exact ⟨place, rfl⟩
    | none =>
      have absent := List.findIdx?_eq_none_iff.mp looked
      rw [fields] at absent
      have missing := absent _ (List.mem_map.mpr ⟨field, fieldMember, rfl⟩)
      simp [← named, Walk.named] at missing
  obtain ⟨bound, here, _⟩ := List.findIdx?_eq_some_iff_getElem.mp first
  refine ⟨place, first, ?_⟩
  have inside : place < struct.fields.length := by
    rwa [fields, List.length_map] at bound
  simp only [fields, List.getElem_map, beq_iff_eq] at here
  have same := accepted.reflects.eq_of_name opened (isField _ (List.getElem_mem inside))
    (isField _ fieldMember) (here.trans named.symm)
  have node : some struct.fields[place].mark.id = some field.mark.id :=
    congrArg Declaration.node same
  rw [List.getElem?_map, fields, List.getElem?_map, List.getElem?_eq_getElem inside]
  simp only [Option.map_some, Eval.declaredType, Option.some.inj node]
  have noted : known.notes.declType? field.mark.id = some ty := typed
  rw [noted, Option.getD_some]

namespace Eval

variable {known : Analysis} {w : World} {excuse : Halt → Prop} {span : Span} {value : Value}

/-! ## Arrays -/

theorem safe_expectBool (shape : w.HasShape known .bool value) :
    Safe known excuse w (expectBool value span) fun _ _ => True := by
  obtain ⟨b, rfl⟩ := shape.eq_bool
  exact safe_pure trivial

theorem safe_expectArray {component : Ty} {use : Use}
    (shape : w.HasShape known (.array component) value) :
    Safe known excuse w (expectArray value use span) fun later row =>
      ∃ ty, later.rows[row]? = some (.elements ty) ∧ ty.same component = true := by
  cases shape with
  | null => exact safe_fail fun fault => by simp [Halt.isFault] at fault
  | array elements same => exact safe_pure ⟨_, elements, same⟩

theorem safe_expectIndex {length : Nat} (shape : w.HasShape known .int value) :
    Safe known excuse w (expectIndex value length span) fun _ place => place < length := by
  obtain ⟨n, rfl⟩ := shape.eq_int
  simp only [expectIndex]
  split
  · rename_i inBounds
    refine safe_pure ?_
    omega
  · exact safe_fail fun fault => by simp [Halt.isFault] at fault

/-- An element has the component type of its array. -/
theorem safe_readElement {array index : Value} {component : Ty}
    (arrayShape : w.HasShape known (.array component) array)
    (indexShape : w.HasShape known .int index) :
    Safe known excuse w (readElement array index span) fun later value =>
      later.HasShape known component value := by
  refine safe_bind (safe_expectArray arrayShape) fun later row grown found => ?_
  obtain ⟨ty, elements, same⟩ := found
  have values : Safe known excuse later (inspect (·.row row)) fun last values =>
      last.Holds known (.elements ty) values := safe_inspect fun heap types => types.row elements
  refine safe_bind values fun last values further holds => ?_
  refine safe_bind (safe_expectIndex (indexShape.mono (le_trans grown further))) ?_
  intro final place evenFurther bound
  refine safe_pure ?_
  rw [Array.getElem?_eq_getElem bound, Option.getD_some]
  exact ((holds _ (Array.getElem_mem bound)).mono evenFurther).of_same same

theorem safe_assignElement {array index : Value} {component : Ty}
    (arrayShape : w.HasShape known (.array component) array)
    (indexShape : w.HasShape known .int index) (shape : w.HasShape known component value) :
    Safe known excuse w (assignElement array index value span) fun _ _ => True := by
  refine safe_bind (safe_expectArray arrayShape) fun later row grown found => ?_
  obtain ⟨ty, elements, same⟩ := found
  have length : Safe known excuse later (inspect fun heap => (heap.row row).size) fun _ _ => True :=
    safe_inspect fun _ _ => trivial
  refine safe_bind length fun last length further _ => ?_
  refine safe_bind (safe_expectIndex (indexShape.mono (le_trans grown further))) ?_
  intro final place evenFurther _
  have all := le_trans grown (le_trans further evenFurther)
  refine safe_update (fun heap types => types.setItem ?_) trivial
  intro found values shaped holds
  rw [evenFurther.rows (further.rows elements)] at shaped
  cases shaped
  exact holds.setElement ((shape.mono all).of_same (Ty.same_symm same))

/-! ## Structs -/

/-- A field has the type that it was declared with. -/
theorem safe_readField {receiver : Value} {name : String} {named : NamedType} {id : DeclId}
    {decl : Declaration} {ty : Ty} (accepted : known.Accepted)
    (shape : w.HasShape known (.struct named) receiver)
    (found : known.notes.symbols.lookupMember? named.decl name = some id)
    (present : known.notes.symbols.decls[id]? = some decl)
    (typed : decl.node.bind known.notes.declType? = some ty) :
    Safe known excuse w (readField receiver name span) fun later value =>
      later.HasShape known ty value := by
  cases shape with
  | null => exact safe_fail fun fault => by simp [Halt.isFault] at fault
  | @struct _ cls row made node fields =>
    rw [← node] at found
    obtain ⟨place, index, fieldType⟩ := made.field accepted found present typed
    have values : Safe known excuse w (inspect (·.row row)) fun later values =>
        later.Holds known (.fields (cls.fields.map (·.2))) values :=
      safe_inspect fun heap types => types.row fields
    refine safe_bind values fun later values grown holds => ?_
    obtain ⟨bound, is⟩ := List.getElem?_eq_some_iff.mp fieldType
    have inside : place < values.toList.length := List.Forall₂.length_eq holds ▸ bound
    have stored : (cls.fieldIndex? name).bind (values[·]?) = some values.toList[place] := by
      rw [index, Option.bind_some, ← Array.getElem?_toList, List.getElem?_eq_getElem inside]
    rw [stored]
    refine safe_pure ?_
    have shapes := List.Forall₂.get holds bound inside
    simp only [List.get_eq_getElem, is] at shapes
    exact shapes

theorem safe_readLength {receiver : Value} {component : Ty}
    (shape : w.HasShape known (.array component) receiver) :
    Safe known excuse w (readField receiver "length" span) fun later value =>
      later.HasShape known .int value := by
  cases shape with
  | null => exact safe_fail fun fault => by simp [Halt.isFault] at fault
  | @array _ _ row _ _ =>
    have length : Safe known excuse w (inspect fun heap => (heap.row row).size) fun _ _ => True :=
      safe_inspect fun _ _ => trivial
    exact safe_bind length fun _ _ _ _ => safe_pure .int

theorem safe_assignField {receiver : Value} {name : String} {named : NamedType} {id : DeclId}
    {decl : Declaration} {ty : Ty} (accepted : known.Accepted)
    (shape : w.HasShape known (.struct named) receiver)
    (found : known.notes.symbols.lookupMember? named.decl name = some id)
    (present : known.notes.symbols.decls[id]? = some decl)
    (typed : decl.node.bind known.notes.declType? = some ty)
    (valueShape : w.HasShape known ty value) :
    Safe known excuse w (assignField receiver name value span) fun _ _ => True := by
  cases shape with
  | null => exact safe_fail fun fault => by simp [Halt.isFault] at fault
  | @struct _ cls row made node fields =>
    rw [← node] at found
    obtain ⟨place, index, fieldType⟩ := made.field accepted found present typed
    simp only [assignField, index]
    refine safe_update (fun heap types => types.setItem ?_) trivial
    intro shape values shaped holds
    rw [fields] at shaped
    cases shaped
    exact holds.setField fieldType valueShape

/-! ## Boxes -/

/-- A member that is looked up is an attribute or a method of the box. -/
theorem member_cases {inner : ScopeId} {cls : BoxClass} {name : String} {id : DeclId}
    {decl : Declaration} (accepted : known.Accepted) (made : cls.Made known w inner)
    (found : known.notes.symbols.lookupMember? cls.decl name = some id)
    (present : known.notes.symbols.decls[id]? = some decl) :
    decl ∈ contents inner known.steps ∧ decl.name = name ∧
      (decl.kind = .attr ∨ decl.kind = .method) := by
  obtain ⟨around, box, walked, node, _, _, _⟩ := made
  rw [node] at found
  obtain ⟨member, named⟩ :=
    accepted.reflects.lookupMember_eq accepted.distinct walked.members found present
  refine ⟨member, named, ?_⟩
  rw [accepted.contents_eq walked.opened, walked.declared] at member
  obtain ⟨found, _, rfl⟩ := List.mem_map.mp member
  cases found with
  | attr attr => exact .inl rfl
  | meth method => exact .inr rfl

/-- The attribute of an instance. -/
theorem getLocal?_attribute {heap : Heap} {frame : FrameId} {inner : ScopeId} {cls : BoxClass}
    {decl : Declaration} {ty : Ty} (accepted : known.Accepted) (types : w.Types known heap)
    (instanceOf : w.frames[frame]? = some (inner, some cls))
    (member : decl ∈ contents inner known.steps) (isAttr : decl.kind = .attr)
    (typed : decl.node.bind known.notes.declType? = some ty) :
    ∃ value, heap.getLocal? frame decl.name = some value ∧ w.HasShape known ty value := by
  obtain ⟨stored, present, stands⟩ := types.frame instanceOf
  obtain ⟨scope, scopePresent⟩ :=
    types.scope_present accepted (World.scope?_of_frames instanceOf)
  obtain ⟨binding, looked, binds⟩ :=
    stands.names.binding accepted scopePresent member (by simp [isAttr])
  simp only [Heap.getLocal?, present, Option.bind_some, Frame.value?, looked]
  cases held : binding.value with
  | none =>
    have var := binds.ready held
    rw [isAttr] at var
    cases var
  | some value =>
    have fits := binds.fits value held
    simp only [World.Fits, isAttr] at fits
    obtain ⟨same, declared, shape⟩ := fits
    rw [typed] at declared
    cases declared
    exact ⟨value, rfl, shape⟩

/-- A member has the type that it was declared with. -/
theorem safe_readMember {receiver : Value} {name : String} {mark : Mark} {named : NamedType}
    {id : DeclId} {decl : Declaration} {ty : Ty} (accepted : known.Accepted)
    (shape : w.HasShape known (.box named) receiver)
    (found : known.notes.symbols.lookupMember? named.decl name = some id)
    (present : known.notes.symbols.decls[id]? = some decl)
    (declared : known.notes.declOf? mark.id = some decl)
    (typed : decl.node.bind known.notes.declType? = some ty) :
    Safe known excuse w (readMember known.notes mark receiver name) fun later value =>
      later.HasShape known ty value := by
  cases shape with
  | null => exact safe_fail fun fault => by simp [Halt.isFault] at fault
  | @box _ frame inner cls instanceOf node =>
    rw [← node] at found
    simp only [readMember]
    split
    · rename_i isMethod
      have kind := (isMethod_iff declared).mp isMethod
      have method : Safe known excuse w
          (inspect fun heap => (heap.class? frame).bind (·.method? name)) fun later result =>
          ∃ method, result = some method ∧ later.HasShape known ty (.method frame method) := by
        refine safe_inspect fun heap types => ?_
        obtain ⟨stored, storedPresent, stands⟩ := types.frame instanceOf
        have made := stands.made cls rfl
        obtain ⟨member, rfl, _⟩ := member_cases accepted made found present
        obtain ⟨method, looked, inMethods, is⟩ := made.method? accepted member kind
        refine ⟨method, ?_, World.hasShape_method accepted instanceOf made inMethods ?_⟩
        · simp only [Heap.class?, storedPresent, Option.bind_some, stands.instanceOf, looked]
        · rw [is] at typed
          exact typed
      refine safe_bind method fun later result grown outcome => ?_
      obtain ⟨method, rfl, shape⟩ := outcome
      exact safe_pure shape
    · rename_i isValue
      have isAttr : Safe known excuse w (inspect (·.getLocal? frame name)) fun later result =>
          ∃ value, result = some value ∧ later.HasShape known ty value := by
        refine safe_inspect fun heap types => ?_
        obtain ⟨stored, _, stands⟩ := types.frame instanceOf
        obtain ⟨member, rfl, kind⟩ := member_cases accepted (stands.made cls rfl) found present
        have isAttr := kind.resolve_right fun method => isValue ((isMethod_iff declared).mpr method)
        exact getLocal?_attribute accepted types instanceOf member isAttr typed
      refine safe_bind isAttr fun later result grown outcome => ?_
      obtain ⟨value, rfl, shape⟩ := outcome
      exact safe_pure shape

theorem safe_assignMember {receiver : Value} {name : String} {named : NamedType} {id : DeclId}
    {decl : Declaration} {ty : Ty} (accepted : known.Accepted)
    (shape : w.HasShape known (.box named) receiver)
    (found : known.notes.symbols.lookupMember? named.decl name = some id)
    (present : known.notes.symbols.decls[id]? = some decl) (isAttr : decl.kind = .attr)
    (typed : decl.node.bind known.notes.declType? = some ty)
    (valueShape : w.HasShape known ty value) :
    Safe known excuse w (assignMember receiver name value span) fun _ _ => True := by
  cases shape with
  | null => exact safe_fail fun fault => by simp [Halt.isFault] at fault
  | @box _ frame inner cls instanceOf node =>
    rw [← node] at found
    have assigned : Safe known excuse w (change (·.assignLocal frame name value))
        fun _ done => done = true := by
      refine safe_change fun heap types => ?_
      obtain ⟨stored, _, stands⟩ := types.frame instanceOf
      obtain ⟨member, rfl, _⟩ := member_cases accepted (stands.made cls rfl) found present
      obtain ⟨old, held, _⟩ := getLocal?_attribute accepted types instanceOf member isAttr typed
      obtain ⟨scope, scopePresent⟩ :=
        types.scope_present accepted (World.scope?_of_frames instanceOf)
      simp only [Heap.assignLocal, held]
      refine ⟨w, le_refl w, types.modifyNames ?_, trivial⟩
      intro stands names home conform
      rw [World.scope?_of_frames instanceOf] at home
      cases home
      refine conform.write fun other otherMember same _ => ?_
      cases accepted.reflects.eq_of_name scopePresent otherMember member same
      simp only [World.Fits, isAttr]
      exact ⟨ty, typed, valueShape⟩
    refine safe_bind assigned fun later done grown is => ?_
    subst is
    exact safe_pure trivial

/-! ## Calls of what is built in -/

/-- A constructor makes a struct from the values of its fields. -/
theorem safe_construct {cls : StructClass} {arguments : List Value} (made : cls.Made known)
    (suit : List.Forall₂ (w.Suits known) (cls.fields.map (·.2)) arguments) :
    Safe known excuse w (construct cls arguments) fun later value =>
      later.HasShape known (.struct ⟨cls.name, cls.decl⟩) value := by
  have values : w.Holds known (.fields (cls.fields.map (·.2)))
      (arguments.zipWith (fun value field => value.coerce (some field.2)) cls.fields).toArray := by
    simp only [World.Holds]
    generalize cls.fields = fields at suit
    induction fields generalizing arguments with
    | nil =>
      cases suit
      exact .nil
    | cons field rest ih =>
      cases suit with
      | cons first others =>
        obtain ⟨actual, shape, fits⟩ := first
        exact .cons (shape.coerce fits) (ih others)
  have row : Safe known excuse w (change (·.newRow
      (arguments.zipWith (fun value field => value.coerce (some field.2)) cls.fields).toArray))
      fun later row => later.rows[row]? = some (.fields (cls.fields.map (·.2))) := by
    refine safe_change fun heap types => ?_
    obtain ⟨typesLater, shaped⟩ := types.newRow values
    exact ⟨_, World.le_withRow w _, typesLater, shaped⟩
  exact safe_bind row fun later row grown shaped => safe_pure (.struct made rfl shaped)

/-- `print` gives back its argument. Its output may be refused. -/
theorem safe_callBuiltin {function : Builtin} {arguments : List Value} {params : List Ty}
    {result : Ty} (signature : function.signature = .function params result)
    (suit : List.Forall₂ (w.Suits known) params arguments)
    (excused : excuse (.failed ⟨.fault (.outputRefused Sink.refusal), span⟩)) :
    Safe known excuse w (callBuiltin function arguments span) fun later value =>
      later.HasShape known result value := by
  cases function
  cases signature
  obtain _ | ⟨first, rest⟩ := suit
  cases rest
  obtain ⟨actual, shape, fits⟩ := first
  have text : w.HasShape known .string _ := shape.coerce fits
  refine safe_bind (safe_textOf fun later text grown => trivial :
    Safe known excuse w _ fun _ _ => True) fun later line grown _ => ?_
  have written : Safe known excuse later (writeLine line span) fun _ _ => True :=
    safe_bind (safe_write (fun _ _ => trivial) excused : Safe known excuse later _ fun _ _ => True)
      fun last _ further _ => safe_write (fun _ _ => trivial) excused
  refine safe_bind written fun last _ further _ => safe_pure ?_
  have unchanged : ∀ value : Value, value.coerce (some .string) = value := by
    intro value
    cases value <;> rfl
  rw [unchanged] at text
  exact text.mono (le_trans grown further)

end Eval

end BoxScript
