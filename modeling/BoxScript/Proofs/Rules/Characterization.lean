import BoxScript.Proofs.Rules.Holding
import BoxScript.Proofs.Types.Assignability
import BoxScript.Typing.Rules

/-!
# What the typing rules say

For each typing rule there is one lemma (`..._holds_iff`) that says what it means for the types,
declarations and return flags of nodes that the rule holds. All that is used of the typing rules
afterwards are these lemmas, and some of their consequences (`..._of_holds`).
-/

set_option autoImplicit false

namespace BoxScript

/-! ## Names -/

/-- A name that is looked up at a place and found to mean a declaration. -/
structure Annotations.Resolves (notes : Annotations) (scope : ScopeId) (name : String)
    (position : Nat) (decl : Declaration) : Prop where
  found : ∃ id, notes.symbols.lookup scope name position = .ok id ∧
    notes.symbols.decls[id]? = some decl

/-- A name that is looked up at a place and found to mean the declaration with a number. -/
structure Annotations.Finds (notes : Annotations) (scope : ScopeId) (name : String)
    (position : Nat) (id : DeclId) (decl : Declaration) : Prop where
  looked : notes.symbols.lookup scope name position = .ok id
  present : notes.symbols.decls[id]? = some decl

theorem Annotations.Finds.resolves {notes : Annotations} {scope : ScopeId} {name : String}
    {position : Nat} {id : DeclId} {decl : Declaration}
    (finds : notes.Finds scope name position id decl) :
    notes.Resolves scope name position decl :=
  ⟨id, finds.looked, finds.present⟩

theorem Annotations.Finds.declOf? {notes : Annotations} {scope : ScopeId} {name : String}
    {position : Nat} {id : DeclId} {decl : Declaration}
    (finds : notes.Finds scope name position id decl) {node : NodeId}
    (reference : notes.declId? node = some id) : notes.declOf? node = some decl :=
  declOf?_eq_some.mpr ⟨id, reference, finds.present⟩

/-- The type of a reference to a declaration. -/
def Declaration.type? (notes : Annotations) (decl : Declaration) : Option Ty :=
  match decl.kind with
  | .builtinFunction function => some function.signature
  | kind => if kind.isType then some .type else decl.node.bind notes.declType?

/-- The type that the name of a declaration denotes in an annotation. -/
def Declaration.denoted? (decl : Declaration) : Option Ty :=
  match decl.kind with
  | .builtinType ty => some ty
  | _ => decl.namedType?

/-- The parameter type of a function with a given number. -/
def Ty.param? (index : Nat) : Ty → Option Ty
  | function params _ => params[index]?
  | _ => none

/-- What an expectation asks for under annotations. -/
def Expectation.Means (notes : Annotations) : Expectation → Option Ty → Prop
  | none, expected => expected = .none
  | type node, expected => ∃ ty, notes.typeOf? node = some ty ∧ expected = some ty
  | param callee index, expected =>
    ∃ ty, notes.typeOf? callee = some ty ∧ expected = ty.param? index
  | element outer, expected =>
    ∃ around, outer.Means notes around ∧ expected = around.bind Ty.component?

namespace Annotations

/-- The common type of nodes from left to right, starting from a type. -/
def common? (notes : Annotations) : Ty → List NodeId → Option Ty
  | component, [] => some component
  | component, node :: rest =>
    (notes.typeOf? node).bind fun ty =>
      (component.commonSupertype? ty).bind fun common => notes.common? common rest

end Annotations

namespace Rule

open Script FactStore

variable {notes : Annotations} {mark : Mark} {name : String} {scope : ScopeId}

/-! ## Parts of rules -/

section Parts

variable {post : Declaration → List (FactKey × FactValue) → Prop}
  {typePost : Ty → List (FactKey × FactValue) → Prop}
  {unitPost : Unit → List (FactKey × FactValue) → Prop}

theorem ends_declaration {id : DeclId} : (declaration notes.symbols id).Ends notes post ↔
    ∃ decl, notes.symbols.decls[id]? = some decl ∧ post decl [] := by
  unfold declaration
  cases notes.symbols.decls[id]? <;> simp

theorem ends_declaredType {decl : Declaration} : (declaredType decl).Ends notes typePost ↔
    ∃ ty, decl.node.bind notes.declType? = some ty ∧ typePost ty [] := by
  unfold declaredType
  cases decl.node with
  | none => simp
  | some node => exact ends_declTypeOf

/-- An unknown name is reported. -/
theorem ends_resolveName {span : Span}
    {post : Option (DeclId × Declaration) → List (FactKey × FactValue) → Prop} :
    (resolveName notes.symbols scope name span).Ends notes post ↔
      ∃ id decl, notes.Finds scope name span.start.offset id decl ∧ post (some (id, decl)) [] := by
  unfold resolveName
  cases looked : notes.symbols.lookup scope name span.start.offset with
  | error cause =>
    have unknown : ∀ id decl, ¬ notes.Finds scope name span.start.offset id decl := by
      rintro id decl ⟨found, _⟩
      rw [looked] at found
      cases found
    simp [unknown]
  | ok id =>
    simp only [ends_bind, ends_declaration, ends_pure, List.append_nil]
    constructor
    · rintro ⟨decl, present, holds⟩
      exact ⟨id, decl, ⟨looked, present⟩, holds⟩
    · rintro ⟨other, decl, ⟨found, present⟩, holds⟩
      rw [looked] at found
      cases found
      exact ⟨decl, present, holds⟩

theorem ends_resolve {expectation : Expectation}
    {post : Option Ty → List (FactKey × FactValue) → Prop} :
    expectation.resolve.Ends notes post ↔
      ∃ expected, expectation.Means notes expected ∧ post expected [] := by
  induction expectation generalizing post with
  | none => simp [Expectation.resolve, Expectation.Means]
  | type node => simp [Expectation.resolve, Expectation.Means]
  | param callee index =>
    simp only [Expectation.resolve, Expectation.Means, ends_bind, ends_typeOf, List.nil_append]
    constructor
    · rintro ⟨ty, read, holds⟩
      refine ⟨_, ⟨ty, read, rfl⟩, ?_⟩
      cases ty <;> simpa [Ty.param?] using holds
    · rintro ⟨_, ⟨ty, read, rfl⟩, holds⟩
      refine ⟨ty, read, ?_⟩
      cases ty <;> simpa [Ty.param?] using holds
  | element outer ih =>
    simp only [Expectation.resolve, Expectation.Means, bind_pure_comp, ends_map, ih]
    constructor
    · rintro ⟨around, means, holds⟩
      exact ⟨_, ⟨around, means, rfl⟩, holds⟩
    · rintro ⟨_, ⟨around, means, rfl⟩, holds⟩
      exact ⟨around, means, holds⟩

/-- Elements without a common type are reported. -/
theorem ends_commonType {span : Span} {component : Ty} {elements : List NodeId}
    {post : Option Ty → List (FactKey × FactValue) → Prop} :
    (commonType span component elements).Ends notes post ↔
      ∃ common, notes.common? component elements = some common ∧ post (some common) [] := by
  induction elements generalizing component with
  | nil => simp [commonType, Annotations.common?]
  | cons element rest ih =>
    simp only [commonType, Annotations.common?, ends_bind, ends_typeOf, List.nil_append]
    cases typed : notes.typeOf? element with
    | none => simp
    | some ty =>
      cases common : component.commonSupertype? ty with
      | none => simp [common]
      | some next => simp [common, ih]

/-- What a target has to be: a name of a variable, parameter or attribute, an element, a field of
what is no array, or an attribute of a box. -/
def Assignable (notes : Annotations) (target : Expr) : Prop :=
  match target with
  | .symbol mark _ => ∃ decl, notes.declOf? mark.id = some decl ∧
      (decl.kind = .var ∨ decl.kind = .param ∨ decl.kind = .attr)
  | .index _ _ _ => True
  | .field _ receiver _ => ∃ ty, notes.typeOf? receiver.id = some ty ∧ ty.component? = none
  | .member mark _ _ => ∃ decl, notes.declOf? mark.id = some decl ∧ decl.kind = .attr
  | _ => False

/-- What has no place to assign to is not gone on with. -/
theorem ends_isAssignable {target : Expr} {post : Bool → List (FactKey × FactValue) → Prop}
    (refused : ∀ writes, ¬ post false writes) :
    (isAssignable notes.symbols target).Ends notes post ↔
      Assignable notes target.bare ∧ post true [] := by
  unfold isAssignable
  split
  · rename_i reference name bare
    simp only [bare, Assignable, ends_bind, ends_declOf, ends_declaration, List.nil_append,
      Annotations.declOf?_eq_some]
    constructor
    · rintro ⟨id, read, decl, present, holds⟩
      split at holds <;> simp_all
    · rintro ⟨⟨decl, ⟨id, read, present⟩, kind⟩, holds⟩
      refine ⟨id, read, decl, present, ?_⟩
      rcases kind with kind | kind | kind <;> simpa [kind] using holds
  · rename_i bare
    simp [bare, Assignable]
  · rename_i reference receiver name bare
    simp only [bare, Assignable, ends_bind, ends_typeOf, List.nil_append]
    constructor
    · rintro ⟨ty, read, holds⟩
      cases ty <;> simp_all [Ty.component?]
    · rintro ⟨⟨ty, read, notArray⟩, holds⟩
      refine ⟨ty, read, ?_⟩
      cases ty <;> simp_all [Ty.component?]
  · rename_i reference receiver name bare
    simp only [bare, Assignable, ends_bind, ends_declOf, ends_declaration, List.nil_append,
      Annotations.declOf?_eq_some]
    constructor
    · rintro ⟨id, read, decl, present, holds⟩
      split at holds <;> simp_all
    · rintro ⟨⟨decl, ⟨id, read, present⟩, kind⟩, holds⟩
      exact ⟨id, read, decl, present, by simpa [kind] using holds⟩
  · rename_i noSymbol noIndex noField noMember
    have never : ¬ Assignable notes target.bare := by
      unfold Assignable
      split <;> simp_all
    simp [never, refused]

/-- An argument that does not fit is reported. -/
theorem ends_checkArguments {index : Nat} {params : List Ty} {given : List Expr}
    (length : params.length = given.length) :
    (checkArguments index params given).Ends notes unitPost ↔
      List.Forall₂ (fun param argument => ∃ ty, notes.typeOf? argument.id = some ty ∧
        ty.isAssignableTo param = true) params given ∧ unitPost () [] := by
  induction params generalizing index given with
  | nil =>
    obtain rfl : given = [] := List.eq_nil_of_length_eq_zero length.symm
    simp [checkArguments]
  | cons param params ih =>
    obtain _ | ⟨argument, rest⟩ := given
    · cases length
    · have others := fun index => @ih (index + 1) rest (Nat.succ.inj length)
      simp only [checkArguments, ends_bind, ends_typeOf, List.nil_append, List.forall₂_cons]
      constructor
      · rintro ⟨ty, read, holds⟩
        split at holds
        · simp [ends_bind] at holds
        · rename_i fits
          obtain ⟨each, holds⟩ := (others index).mp (by simpa using holds)
          exact ⟨⟨⟨ty, read, by simpa using fits⟩, each⟩, holds⟩
      · rintro ⟨⟨⟨ty, read, fits⟩, each⟩, holds⟩
        exact ⟨ty, read, by simpa [fits] using (others index).mpr ⟨each, holds⟩⟩

/-- The answers of a member access: the declaration of the member, and its type. -/
theorem ends_setMember {node : NodeId} {id : DeclId} :
    (setMember notes.symbols node id).Ends notes (fun _ writes => notes.facts.Has writes) ↔
      ∃ decl ty, notes.symbols.decls[id]? = some decl ∧
        decl.node.bind notes.declType? = some ty ∧ notes.declId? node = some id ∧
        notes.typeOf? node = some ty := by
  simp [setMember, ends_bind, ends_declaration, ends_declaredType]

/-- The result type of a function as annotated. -/
def resultType? (notes : Annotations) (decl : FunctionDecl) : Option Ty :=
  match decl.result with
  | some type => notes.typeOf? type.id
  | none => some .void

theorem ends_resultType {decl : FunctionDecl} : (resultType decl).Ends notes typePost ↔
    ∃ ty, resultType? notes decl = some ty ∧ typePost ty [] := by
  unfold resultType resultType?
  cases decl.result with
  | some type => exact ends_typeOf
  | none => simp

end Parts

/-! ## References -/

theorem typeName_holds_iff : (typeName mark name scope).Holds notes ↔
    ∃ id decl ty, notes.Finds scope name mark.span.start.offset id decl ∧ decl.denoted? = some ty ∧
      notes.typeOf? mark.id = some ty := by
  refine holds_ofScript.trans ?_
  rw [ends_bind, ends_resolveName]
  apply exists_congr
  intro id
  apply exists_congr
  intro decl
  rw [exists_and_left]
  apply and_congr_right
  intro _
  cases kind : decl.kind <;> cases named : decl.namedType? <;>
    simp [Declaration.denoted?, kind, named]

theorem arrayType_holds_iff {component : NodeId} : (arrayType mark component).Holds notes ↔
    ∃ ty, notes.typeOf? component = some ty ∧ notes.typeOf? mark.id = some (.array ty) := by
  refine holds_ofScript.trans ?_
  simp [ends_bind]

/-- A name means a declaration, and has the type of it. -/
theorem symbol_holds_iff : (symbol mark name scope).Holds notes ↔
    ∃ id decl ty, notes.Finds scope name mark.span.start.offset id decl ∧
      decl.type? notes = some ty ∧
      notes.declId? mark.id = some id ∧ notes.typeOf? mark.id = some ty := by
  refine holds_ofScript.trans ?_
  rw [ends_bind, ends_resolveName]
  apply exists_congr
  intro id
  apply exists_congr
  intro decl
  rw [exists_and_left]
  apply and_congr_right
  intro _
  dsimp only
  split
  · rename_i kind
    simp [ends_bind, Declaration.type?, kind]
  · rename_i notBuiltin
    have type : decl.type? notes =
        if decl.kind.isType then some .type else decl.node.bind notes.declType? := by
      unfold Declaration.type?
      split
      · exact absurd ‹_› (notBuiltin _)
      · rfl
    rw [type]
    split
    · simp [ends_bind]
    · simp [ends_bind, ends_declaredType]

/-- A constructor names a struct, and makes it from the values of its fields. -/
theorem constructor_holds_iff : (Rule.constructor mark name scope).Holds notes ↔
    ∃ id decl named fields, notes.Finds scope name mark.span.start.offset id decl ∧
      decl.namedType? = some (.struct named) ∧
      List.Forall₂ (fun field ty => field.node.bind notes.declType? = some ty)
        (notes.symbols.members named.decl) fields ∧
      notes.declId? mark.id = some id ∧
      notes.typeOf? mark.id = some (.function fields (.struct named)) := by
  refine holds_ofScript.trans ?_
  rw [ends_bind, ends_resolveName]
  apply exists_congr
  intro id
  apply exists_congr
  intro decl
  dsimp only
  split
  · rename_i named isStruct
    simp [isStruct, ends_bind, ends_mapM fun _ => ends_declaredType]
  · rename_i noStruct
    constructor
    · rintro ⟨_, holds⟩
      simp at holds
    · rintro ⟨named, _, _, isStruct, _⟩
      exact absurd isStruct (noStruct named)

/-- A creation names a box, and gives an instance of it. -/
theorem create_holds_iff : (create mark name scope).Holds notes ↔
    ∃ id decl named, notes.Finds scope name mark.span.start.offset id decl ∧
      decl.namedType? = some (.box named) ∧ notes.declId? mark.id = some id ∧
      notes.typeOf? mark.id = some (.box named) := by
  refine holds_ofScript.trans ?_
  rw [ends_bind, ends_resolveName]
  apply exists_congr
  intro id
  apply exists_congr
  intro decl
  dsimp only
  split
  · rename_i named isBox
    simp [isBox, ends_bind]
  · rename_i noBox
    constructor
    · rintro ⟨_, holds⟩
      simp at holds
    · rintro ⟨named, _, isBox, _⟩
      exact absurd isBox (noBox named)

/-! ## Expressions -/

theorem paren_holds_iff {inner : NodeId} : (paren mark inner).Holds notes ↔
    ∃ ty, notes.typeOf? inner = some ty ∧ notes.typeOf? mark.id = some ty := by
  refine holds_ofScript.trans ?_
  simp [ends_bind]

/-- An array literal without elements is what is expected of it. -/
theorem array_nil_holds_iff {expectation : Expectation} :
    (array mark [] expectation).Holds notes ↔
      ∃ component, expectation.Means notes (some (.array component)) ∧
        notes.typeOf? mark.id = some (.array component) := by
  refine holds_ofScript.trans ?_
  dsimp only
  rw [ends_bind, ends_resolve]
  constructor
  · rintro ⟨expected, means, holds⟩
    split at holds
    · exact ⟨_, means, by simpa using holds⟩
    · simp at holds
    · simp at holds
  · rintro ⟨component, means, typed⟩
    exact ⟨_, means, by simpa using typed⟩

/-- An array literal is an array of the common type of its elements. -/
theorem array_cons_holds_iff {first : NodeId} {rest : List NodeId} {expectation : Expectation} :
    (array mark (first :: rest) expectation).Holds notes ↔
      ∃ ty component, notes.typeOf? first = some ty ∧
        notes.common? ty rest = some component ∧
        notes.typeOf? mark.id = some (.array component) := by
  refine holds_ofScript.trans ?_
  simp [ends_bind, ends_commonType]

/-- What an operand of a prefix operator is, and what comes of it. -/
theorem unary_holds_iff {op : PrefixOp} {operand : NodeId} :
    (unary mark op operand).Holds notes ↔
      ∃ ty, notes.typeOf? operand = some ty ∧
        match op with
        | .not => ty.same .bool = true ∧ notes.typeOf? mark.id = some .bool
        | .negate => ty.isNumeric = true ∧ notes.typeOf? mark.id = some ty := by
  refine holds_ofScript.trans ?_
  cases op with
  | not =>
    simp only [ends_bind, ends_typeOf, List.nil_append]
    apply exists_congr
    intro ty
    split <;> simp_all
  | negate =>
    simp only [ends_bind, ends_typeOf, List.nil_append]
    apply exists_congr
    intro ty
    split <;> simp_all

theorem binary_holds_iff {op : BinaryOp} {left right : NodeId} :
    (binary mark op left right).Holds notes ↔
      ∃ leftType rightType ty, notes.typeOf? left = some leftType ∧
        notes.typeOf? right = some rightType ∧ binaryType op leftType rightType = .ok ty ∧
        notes.typeOf? mark.id = some ty := by
  refine holds_ofScript.trans ?_
  simp only [ends_bind, ends_typeOf, List.nil_append]
  constructor
  · rintro ⟨leftType, leftRead, rightType, rightRead, holds⟩
    split at holds
    · exact ⟨leftType, rightType, _, leftRead, rightRead, ‹_›, by simpa using holds⟩
    · simp at holds
  · rintro ⟨leftType, rightType, ty, leftRead, rightRead, fits, typed⟩
    exact ⟨leftType, leftRead, rightType, rightRead, by simpa [fits] using typed⟩

/-- The target of an assignment can be assigned to, and its value fits it. -/
theorem assign_holds_iff {target : Expr} {value : NodeId} :
    (assign mark target value).Holds notes ↔
      Assignable notes target.bare ∧ ∃ targetType valueType,
        notes.typeOf? target.id = some targetType ∧ notes.typeOf? value = some valueType ∧
        valueType.isAssignableTo targetType = true ∧
        notes.typeOf? mark.id = some targetType := by
  refine holds_ofScript.trans ?_
  rw [ends_bind, ends_isAssignable (by simp)]
  apply and_congr_right
  intro _
  simp only [Bool.not_true, Bool.false_eq_true, if_false, ends_bind, ends_typeOf, List.nil_append]
  constructor
  · rintro ⟨targetType, targetRead, valueType, valueRead, holds⟩
    split at holds
    · exact ⟨targetType, valueType, targetRead, valueRead, ‹_›, by simpa using holds⟩
    · simp at holds
  · rintro ⟨targetType, valueType, targetRead, valueRead, fits, typed⟩
    exact ⟨targetType, targetRead, valueType, valueRead, by simpa [fits] using typed⟩

/-- A callee has a function type whose parameters the arguments fit. -/
theorem call_holds_iff {callee : Expr} {given : List Expr} :
    (call mark callee given).Holds notes ↔
      ∃ params result, notes.typeOf? callee.id = some (.function params result) ∧
        List.Forall₂ (fun param argument => ∃ ty,
          notes.typeOf? argument.id = some ty ∧ ty.isAssignableTo param = true) params given ∧
        notes.typeOf? mark.id = some result := by
  refine holds_ofScript.trans ?_
  simp only [ends_bind, ends_typeOf, List.nil_append]
  constructor
  · rintro ⟨ty, read, holds⟩
    split at holds
    · rename_i params result
      split at holds
      · simp at holds
      · rename_i length
        rw [ends_bind, ends_checkArguments (by omega)] at holds
        exact ⟨params, result, read, holds.1, by simpa using holds.2⟩
    · simp at holds
  · rintro ⟨params, result, read, fits, typed⟩
    refine ⟨_, read, ?_⟩
    dsimp only
    rw [if_neg (not_not.mpr fits.length_eq), ends_bind, ends_checkArguments fits.length_eq]
    exact ⟨fits, by simpa using typed⟩

theorem index_holds_iff {owner place : Expr} : (index mark owner place).Holds notes ↔
    ∃ component placeType, notes.typeOf? owner.id = some (.array component) ∧
      notes.typeOf? place.id = some placeType ∧ placeType.same .int = true ∧
      notes.typeOf? mark.id = some component := by
  refine holds_ofScript.trans ?_
  simp only [ends_bind, ends_typeOf, List.nil_append]
  constructor
  · rintro ⟨ownerType, ownerRead, placeType, placeRead, holds⟩
    split at holds
    · split at holds
      · exact ⟨_, placeType, ownerRead, placeRead, ‹_›, by simpa using holds⟩
      · simp at holds
    · simp at holds
  · rintro ⟨component, placeType, ownerRead, placeRead, isInt, typed⟩
    exact ⟨_, ownerRead, placeType, placeRead, by simpa [isInt] using typed⟩

/-- A field belongs to a struct, unless it is the length of an array. -/
theorem field_holds_iff {receiver : NodeId} : (field mark receiver name).Holds notes ↔
    (∃ named id decl ty, notes.typeOf? receiver = some (.struct named) ∧
      notes.symbols.lookupMember? named.decl name = some id ∧
      notes.symbols.decls[id]? = some decl ∧ decl.node.bind notes.declType? = some ty ∧
      notes.declId? mark.id = some id ∧ notes.typeOf? mark.id = some ty) ∨
    ∃ component, notes.typeOf? receiver = some (.array component) ∧ name = "length" ∧
      notes.typeOf? mark.id = some .int := by
  refine holds_ofScript.trans ?_
  simp only [ends_bind, ends_typeOf, List.nil_append]
  constructor
  · rintro ⟨ty, read, holds⟩
    split at holds
    · rename_i named
      split at holds
      · rename_i id looked
        obtain ⟨decl, ty, found⟩ := ends_setMember.mp holds
        exact .inl ⟨named, id, decl, ty, read, looked, found⟩
      · simp at holds
    · simp at holds
    · split at holds
      · exact .inr ⟨_, read, ‹_›, by simpa using holds⟩
      · simp at holds
    · simp at holds
  · rintro (⟨named, id, decl, ty, read, looked, found⟩ | ⟨component, read, rfl, typed⟩)
    · refine ⟨_, read, ?_⟩
      simp only [looked]
      exact ends_setMember.mpr ⟨decl, ty, found⟩
    · exact ⟨_, read, by simpa using typed⟩

/-- A member belongs to the box of its receiver. -/
theorem member_holds_iff {receiver : NodeId} : (member mark receiver name).Holds notes ↔
    ∃ named id decl ty, notes.typeOf? receiver = some (.box named) ∧
      notes.symbols.lookupMember? named.decl name = some id ∧
      notes.symbols.decls[id]? = some decl ∧ decl.node.bind notes.declType? = some ty ∧
      notes.declId? mark.id = some id ∧ notes.typeOf? mark.id = some ty := by
  refine holds_ofScript.trans ?_
  simp only [ends_bind, ends_typeOf, List.nil_append]
  constructor
  · rintro ⟨ty, read, holds⟩
    split at holds
    · rename_i named
      split at holds
      · rename_i id looked
        obtain ⟨decl, ty, found⟩ := ends_setMember.mp holds
        exact ⟨named, id, decl, ty, read, looked, found⟩
      · simp at holds
    · simp at holds
  · rintro ⟨named, id, decl, ty, read, looked, found⟩
    refine ⟨_, read, ?_⟩
    simp only [looked]
    exact ends_setMember.mpr ⟨decl, ty, found⟩

/-! ## Declarations and statements -/

theorem annotated_holds_iff {node type : NodeId} {what : String} {span : Span} :
    (annotated node type what span).Holds notes ↔
      ∃ ty, notes.typeOf? type = some ty ∧ notes.declType? node = some ty := by
  refine holds_ofScript.trans ?_
  simp [ends_bind]

theorem initializer_holds_iff {type : NodeId} {value : Expr} :
    (initializer name type value).Holds notes ↔
      ∃ expected actual, notes.typeOf? type = some expected ∧
        notes.typeOf? value.id = some actual ∧ actual.isAssignableTo expected = true := by
  refine holds_ofScript.trans ?_
  simp only [ends_bind, ends_typeOf, List.nil_append]
  constructor
  · rintro ⟨expected, expectedRead, actual, actualRead, holds⟩
    split at holds
    · simp at holds
    · rename_i fits
      exact ⟨expected, actual, expectedRead, actualRead, by simpa using fits⟩
  · rintro ⟨expected, actual, expectedRead, actualRead, fits⟩
    exact ⟨expected, expectedRead, actual, actualRead, by simp [fits]⟩

/-- A type of which no other value is tells nothing of what a variable is for. -/
theorem inferred_holds_iff {value : NodeId} : (inferred mark name value).Holds notes ↔
    ∃ ty, notes.typeOf? value = some ty ∧ ty ≠ .null ∧ ty ≠ .void ∧
      notes.declType? mark.id = some ty := by
  refine holds_ofScript.trans ?_
  simp only [ends_bind, ends_typeOf, List.nil_append]
  apply exists_congr
  intro ty
  apply and_congr_right
  intro _
  cases ty <;> simp

theorem signature_holds_iff {decl : FunctionDecl} : (signature decl).Holds notes ↔
    ∃ params result,
      List.Forall₂ (fun parameter ty => notes.typeOf? parameter.type.id = some ty)
        decl.parameters params ∧
      resultType? notes decl = some result ∧
      notes.declType? decl.mark.id = some (.function params result) := by
  refine holds_ofScript.trans ?_
  simp [ends_bind, ends_resultType, ends_mapM fun _ => ends_typeOf]

theorem returnsAlways_holds_iff {decl : FunctionDecl} {result : NodeId} :
    (returnsAlways decl result).Holds notes ↔
      ∃ ty, notes.typeOf? result = some ty ∧
        (ty.same .void = true ∨ notes.returns? decl.body.mark.id = some true) := by
  refine holds_ofScript.trans ?_
  simp only [ends_bind, ends_typeOf, List.nil_append]
  apply exists_congr
  intro ty
  apply and_congr_right
  intro _
  cases ty.same .void with
  | true => simp
  | false => simp [ends_bind]

theorem blockReturns_holds_iff {last : Option NodeId} : (blockReturns mark last).Holds notes ↔
    match last with
    | some node => ∃ value, notes.returns? node = some value ∧ notes.returns? mark.id = some value
    | none => notes.returns? mark.id = some false := by
  refine holds_ofScript.trans ?_
  cases last with
  | none => simp
  | some node => simp [ends_bind]

theorem condition_holds_iff {statement : Conditional} {e : Expr} :
    (condition statement e).Holds notes ↔
      ∃ ty, notes.typeOf? e.id = some ty ∧ ty.same .bool = true := by
  refine holds_ofScript.trans ?_
  simp only [ends_bind, ends_typeOf, List.nil_append]
  apply exists_congr
  intro ty
  cases ty.same .bool <;> simp

/-- An `if` returns if both branches do. -/
theorem branchesReturn_holds_iff {thenBody : NodeId} {elseBody : Option NodeId} :
    (branchesReturn mark thenBody elseBody).Holds notes ↔
      ∃ first, notes.returns? thenBody = some first ∧
        match first, elseBody with
        | true, some node =>
          ∃ second, notes.returns? node = some second ∧ notes.returns? mark.id = some second
        | _, _ => notes.returns? mark.id = some false := by
  refine holds_ofScript.trans ?_
  simp only [ends_bind, ends_returnsOf, List.nil_append]
  apply exists_congr
  intro first
  apply and_congr_right
  intro _
  cases first with
  | false => simp
  | true => cases elseBody <;> simp [ends_bind]

/-- What a `return` gives fits the result type of the function around it. -/
theorem returned_holds_iff {value : Option Expr} {enclosing : FunctionDecl} :
    (returned mark value enclosing).Holds notes ↔
      ∃ expected, resultType? notes enclosing = some expected ∧
        match value with
        | some value => ∃ actual,
          notes.typeOf? value.id = some actual ∧ actual.isAssignableTo expected = true
        | none => expected.same .void = true := by
  refine holds_ofScript.trans ?_
  simp only [ends_bind, ends_resultType, List.nil_append]
  apply exists_congr
  intro expected
  apply and_congr_right
  intro _
  cases value with
  | none =>
    dsimp only
    cases expected.same .void <;> simp
  | some value =>
    simp only [ends_bind, ends_typeOf, List.nil_append]
    apply exists_congr
    intro actual
    cases actual.isAssignableTo expected <;> simp

/-! ## What holds of declarations and returns -/

/-- A name means a declaration, and has the type of it. -/
theorem symbol_of_holds (holds : (symbol mark name scope).Holds notes) :
    ∃ decl ty, notes.Resolves scope name mark.span.start.offset decl ∧
      notes.declOf? mark.id = some decl ∧ decl.type? notes = some ty ∧
      notes.typeOf? mark.id = some ty := by
  obtain ⟨id, decl, ty, finds, type, reference, typed⟩ := symbol_holds_iff.mp holds
  exact ⟨decl, ty, finds.resolves, finds.declOf? reference, type, typed⟩

/-- A constructor names a struct, and makes it from the values of its fields. -/
theorem constructor_of_holds (holds : (Rule.constructor mark name scope).Holds notes) :
    ∃ decl named fields, notes.Resolves scope name mark.span.start.offset decl ∧
      notes.declOf? mark.id = some decl ∧ decl.namedType? = some (.struct named) ∧
      List.Forall₂ (fun field ty => field.node.bind notes.declType? = some ty)
        (notes.symbols.members named.decl) fields ∧
      notes.typeOf? mark.id = some (.function fields (.struct named)) := by
  obtain ⟨id, decl, named, fields, finds, isStruct, typed, reference, type⟩ :=
    constructor_holds_iff.mp holds
  exact ⟨decl, named, fields, finds.resolves, finds.declOf? reference, isStruct, typed, type⟩

/-- A creation names a box, and gives an instance of it. -/
theorem create_of_holds (holds : (create mark name scope).Holds notes) :
    ∃ decl named, notes.Resolves scope name mark.span.start.offset decl ∧
      notes.declOf? mark.id = some decl ∧ decl.namedType? = some (.box named) ∧
      notes.typeOf? mark.id = some (.box named) := by
  obtain ⟨id, decl, named, finds, isBox, reference, type⟩ := create_holds_iff.mp holds
  exact ⟨decl, named, finds.resolves, finds.declOf? reference, isBox, type⟩

/-- The types of elements are assignable to their common type. -/
theorem isAssignableTo_of_common? {component common : Ty} {elements : List NodeId}
    (found : notes.common? component elements = some common) :
    component.isAssignableTo common = true ∧ ∀ element ∈ elements, ∃ ty,
      notes.typeOf? element = some ty ∧ ty.isAssignableTo common = true := by
  induction elements generalizing component with
  | nil =>
    cases found
    exact ⟨Ty.isAssignableTo_refl _, by simp⟩
  | cons element rest ih =>
    simp only [Annotations.common?, Option.bind_eq_some_iff] at found
    obtain ⟨ty, read, next, supertype, found⟩ := found
    obtain ⟨below, others⟩ := ih found
    obtain ⟨left, right⟩ := Ty.commonSupertype?_bounds supertype
    exact ⟨Ty.isAssignableTo_trans left below,
      List.forall_mem_cons.mpr ⟨⟨ty, read, Ty.isAssignableTo_trans right below⟩, others⟩⟩

/-- An array literal is an array of a type to which the types of all elements are assignable. -/
theorem array_of_holds {elements : List NodeId} {expectation : Expectation}
    (holds : (array mark elements expectation).Holds notes) :
    ∃ component, notes.typeOf? mark.id = some (.array component) ∧
      ∀ element ∈ elements, ∃ ty,
        notes.typeOf? element = some ty ∧ ty.isAssignableTo component = true := by
  cases elements with
  | nil =>
    obtain ⟨component, _, typed⟩ := array_nil_holds_iff.mp holds
    exact ⟨component, typed, by simp⟩
  | cons first rest =>
    obtain ⟨ty, component, read, found, typed⟩ := array_cons_holds_iff.mp holds
    obtain ⟨below, others⟩ := isAssignableTo_of_common? found
    exact ⟨component, typed, List.forall_mem_cons.mpr ⟨⟨ty, read, below⟩, others⟩⟩

/-- A field belongs to a struct, unless it is the length of an array. -/
theorem field_of_holds {receiver : NodeId} (holds : (field mark receiver name).Holds notes) :
    (∃ named id decl ty, notes.typeOf? receiver = some (.struct named) ∧
      notes.symbols.lookupMember? named.decl name = some id ∧
      notes.symbols.decls[id]? = some decl ∧ notes.declOf? mark.id = some decl ∧
      decl.node.bind notes.declType? = some ty ∧ notes.typeOf? mark.id = some ty) ∨
    (∃ component, notes.typeOf? receiver = some (.array component) ∧ name = "length" ∧
      notes.typeOf? mark.id = some .int) := by
  refine (field_holds_iff.mp holds).imp_left ?_
  rintro ⟨named, id, decl, ty, read, looked, present, declType, reference, typed⟩
  exact ⟨named, id, decl, ty, read, looked, present,
    Annotations.declOf?_eq_some.mpr ⟨id, reference, present⟩, declType, typed⟩

/-- A member belongs to the box of its receiver. -/
theorem member_of_holds {receiver : NodeId} (holds : (member mark receiver name).Holds notes) :
    ∃ named id decl ty, notes.typeOf? receiver = some (.box named) ∧
      notes.symbols.lookupMember? named.decl name = some id ∧
      notes.symbols.decls[id]? = some decl ∧ notes.declOf? mark.id = some decl ∧
      decl.node.bind notes.declType? = some ty ∧ notes.typeOf? mark.id = some ty := by
  obtain ⟨named, id, decl, ty, read, looked, present, declType, reference, typed⟩ :=
    member_holds_iff.mp holds
  exact ⟨named, id, decl, ty, read, looked, present,
    Annotations.declOf?_eq_some.mpr ⟨id, reference, present⟩, declType, typed⟩

/-- A block that returns ends with a statement that does. -/
theorem blockReturns_of_holds {last : Option NodeId} (holds : (blockReturns mark last).Holds notes)
    (returns : notes.returns? mark.id = some true) :
    ∃ node, last = some node ∧ notes.returns? node = some true := by
  have answer := blockReturns_holds_iff.mp holds
  rw [returns] at answer
  cases last with
  | none => cases answer
  | some node =>
    obtain ⟨value, read, same⟩ := answer
    cases same
    exact ⟨node, rfl, read⟩

/-- An `if` that returns has two branches that do. -/
theorem branchesReturn_of_holds {thenBody : NodeId} {elseBody : Option NodeId}
    (holds : (branchesReturn mark thenBody elseBody).Holds notes)
    (returns : notes.returns? mark.id = some true) :
    notes.returns? thenBody = some true ∧
      ∃ node, elseBody = some node ∧ notes.returns? node = some true := by
  obtain ⟨first, read, answer⟩ := branchesReturn_holds_iff.mp holds
  rw [returns] at answer
  cases first with
  | false => cases answer
  | true =>
    cases elseBody with
    | none => cases answer
    | some node =>
      obtain ⟨second, next, same⟩ := answer
      cases same
      exact ⟨read, node, rfl, next⟩

end Rule

end BoxScript
