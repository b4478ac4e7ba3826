import BoxScript.Proofs.Rules.Asking
import BoxScript.Typing.Walk

/-!
# The questions of the typing rules

There is one lemma for each typing rule. It says which questions the rule asks and which answers it
owes. A rule asks about the parts of its node, and about the declarations that a name or a member
means. It owes the type of its node; the rules of names, constructors, creations and box members owe
the declaration as well. The rule of a field does not: the length of an array has none.
-/

set_option autoImplicit false

namespace BoxScript

/-- The questions that an expectation leads to. -/
def Expectation.Asks (asks : FactKey → Prop) : Expectation → Prop
  | .none => True
  | .type node => asks ⟨node, .type⟩
  | .param callee _ => asks ⟨callee, .type⟩
  | .element outer => outer.Asks asks

/-- The answers that are owed about an expression. -/
def Expr.owes (e : Expr) : List FactKey :=
  match e with
  | .symbol mark _ | .constructor mark _ | .create mark _ | .member mark _ _ =>
    [⟨mark.id, .type⟩, ⟨mark.id, .decl⟩]
  | e => [⟨e.id, .type⟩]

/-- The questions about the declaration that a name means at a place. A name of a type leads to
none. -/
def SymbolTable.AsksName (symbols : SymbolTable) (asks : FactKey → Prop) (scope : ScopeId)
    (name : String) (position : Nat) : Prop :=
  ∀ id decl node, symbols.lookup scope name position = .ok id → symbols.decls[id]? = some decl →
    decl.kind.isType = false → decl.node = some node → asks ⟨node, .declType⟩

/-- The questions about the members of structs and boxes. -/
structure SymbolTable.AsksMembers (symbols : SymbolTable) (asks : FactKey → Prop) : Prop where
  all : ∀ owner, ∀ decl ∈ symbols.members owner, ∀ node, decl.node = some node →
    asks ⟨node, .declType⟩
  lookup : ∀ owner name id decl node, symbols.lookupMember? owner name = some id →
    symbols.decls[id]? = some decl → decl.node = some node → asks ⟨node, .declType⟩

namespace Rule

open Script

variable {symbols : SymbolTable} {asks : FactKey → Prop} {mark : Mark} {name : String}
  {scope : ScopeId}

/-! ## Parts of rules -/

section Parts

variable {answers given : FactKey → Prop}

theorem confined_declaration {id : DeclId} {post : (FactKey → Prop) → Declaration → Prop}
    (after : ∀ decl, symbols.decls[id]? = some decl → post given decl) :
    (declaration symbols id).Confined asks answers given post := by
  unfold declaration
  split
  · exact after _ ‹_›
  · exact confined_drop

theorem confined_declaredType {decl : Declaration} {post : (FactKey → Prop) → Ty → Prop}
    (asked : ∀ node, decl.node = some node → asks ⟨node, .declType⟩)
    (after : ∀ ty, post given ty) : (declaredType decl).Confined asks answers given post := by
  unfold declaredType
  split
  · exact confined_declTypeOf.mpr ⟨asked _ ‹_›, after⟩
  · exact confined_drop

theorem lookupAlong_error_own {position : Nat} {passed : Bool} {scopes : List ScopeId}
    {cause : SemanticError.Cause}
    (failed : symbols.lookupAlong name position passed scopes = .error cause) (what : String) :
    cause ≠ .unresolved (.stuck what) := by
  induction scopes generalizing passed with
  | nil => cases passed <;> cases failed <;> simp
  | cons inner outer ih =>
    simp only [SymbolTable.lookupAlong] at failed
    split at failed
    · exact ih failed
    · split at failed
      · cases failed
      · exact ih failed

theorem confined_resolveName {span : Span}
    {post : (FactKey → Prop) → Option (DeclId × Declaration) → Prop}
    (unknown : post (fun _ => True) none)
    (after : ∀ id decl, symbols.lookup scope name span.start.offset = .ok id →
      symbols.decls[id]? = some decl → post given (some (id, decl))) :
    (resolveName symbols scope name span).Confined asks answers given post := by
  unfold resolveName
  split
  · rename_i id found
    rw [confined_bind]
    apply confined_declaration
    intro decl present
    exact after id decl found present
  · rename_i cause failed
    rw [confined_bind, confined_error]
    exact ⟨lookupAlong_error_own failed, unknown⟩

theorem confined_resolve {expectation : Expectation} {post : (FactKey → Prop) → Option Ty → Prop}
    (asked : expectation.Asks asks) (after : ∀ expected, post given expected) :
    expectation.resolve.Confined asks answers given post := by
  induction expectation generalizing post with
  | none => exact after none
  | type node =>
    rw [Expectation.resolve, map_eq_pure_bind, confined_bind, confined_typeOf]
    exact ⟨asked, fun ty => after (some ty)⟩
  | param callee index =>
    rw [Expectation.resolve, confined_bind, confined_typeOf]
    refine ⟨asked, fun ty => ?_⟩
    split <;> exact after _
  | element outer ih =>
    rw [Expectation.resolve, confined_bind]
    apply ih asked
    intro expected
    exact after _

/-- Elements without a common type are reported. -/
theorem confined_commonType {span : Span} {component : Ty} {elements : List NodeId}
    {post : (FactKey → Prop) → Option Ty → Prop}
    (asked : ∀ element ∈ elements, asks ⟨element, .type⟩) (failed : post (fun _ => True) none)
    (after : ∀ common, post given (some common)) :
    (commonType span component elements).Confined asks answers given post := by
  induction elements generalizing component with
  | nil => exact after component
  | cons element rest ih =>
    rw [commonType, confined_bind, confined_typeOf]
    refine ⟨asked element List.mem_cons_self, fun ty => ?_⟩
    split
    · apply ih
      intro other member
      exact asked other (List.mem_cons_of_mem _ member)
    · rw [confined_bind, confined_error]
      exact ⟨by simp, failed⟩

/-- The questions that tell whether an expression can be assigned to. -/
structure AsksTarget (asks : FactKey → Prop) (target : Expr) : Prop where
  bare : ∀ key ∈ target.bare.owes, asks key
  receiver : ∀ mark receiver name, target.bare = .field mark receiver name →
    asks ⟨receiver.id, .type⟩

theorem confined_isAssignable {target : Expr} {post : (FactKey → Prop) → Bool → Prop}
    (asked : AsksTarget asks target) (after : ∀ value, post given value) :
    (isAssignable symbols target).Confined asks answers given post := by
  unfold isAssignable
  split
  · rename_i mark name is
    rw [confined_bind, confined_declOf]
    refine ⟨asked.bare _ (by simp [is, Expr.owes]), fun id => ?_⟩
    rw [confined_bind]
    apply confined_declaration
    intro decl _
    split <;> exact after _
  · exact after true
  · rename_i mark receiver name is
    rw [confined_bind, confined_typeOf]
    refine ⟨asked.receiver mark receiver name is, fun ty => ?_⟩
    split <;> exact after _
  · rename_i mark receiver name is
    rw [confined_bind, confined_declOf]
    refine ⟨asked.bare _ (by simp [is, Expr.owes]), fun id => ?_⟩
    rw [confined_bind]
    apply confined_declaration
    intro decl _
    split <;> exact after _
  · exact after false

/-- An argument that does not fit is reported. -/
theorem confined_checkArguments {index : Nat} {params : List Ty} {arguments : List Expr}
    {post : (FactKey → Prop) → Unit → Prop}
    (asked : ∀ argument ∈ arguments, asks ⟨argument.id, .type⟩) (failed : post (fun _ => True) ())
    (after : post given ()) :
    (checkArguments index params arguments).Confined asks answers given post := by
  induction params generalizing index arguments given with
  | nil => exact after
  | cons param params ih =>
    cases arguments with
    | nil => exact after
    | cons argument rest =>
      have others : ∀ other ∈ rest, asks ⟨other.id, .type⟩ := by
        intro other member
        exact asked other (List.mem_cons_of_mem _ member)
      rw [checkArguments, confined_bind, confined_typeOf]
      refine ⟨asked argument List.mem_cons_self, fun ty => ?_⟩
      split
      · rw [confined_bind, confined_error]
        exact ⟨by simp, ih others failed⟩
      · exact ih others after

theorem confined_setMember (members : symbols.AsksMembers asks) {owner node : NodeId} {id : DeclId}
    {post : (FactKey → Prop) → Unit → Prop}
    (member : symbols.lookupMember? owner name = some id) (type : answers ⟨node, .type⟩)
    (reference : answers ⟨node, .decl⟩)
    (after : post (fun key => key = ⟨node, .type⟩ ∨ key = ⟨node, .decl⟩ ∨ given key) ()) :
    (setMember symbols node id).Confined asks answers given post := by
  unfold setMember
  rw [confined_bind]
  apply confined_declaration
  intro decl present
  rw [confined_bind]
  apply confined_declaredType
  · intro declared is
    exact members.lookup owner name id decl declared member present is
  · intro ty
    rw [confined_bind, confined_setDecl, confined_setType]
    exact ⟨reference, type, after⟩

theorem confined_resultType {decl : FunctionDecl} {post : (FactKey → Prop) → Ty → Prop}
    (asked : ∀ type, decl.result = some type → asks ⟨type.id, .type⟩)
    (after : ∀ ty, post given ty) : (resultType decl).Confined asks answers given post := by
  unfold resultType
  split
  · exact confined_typeOf.mpr ⟨asked _ ‹_›, after⟩
  · exact after .void

end Parts

/-! ## References -/

theorem typeName_confined : (typeName mark name scope).Confined symbols asks
    [⟨mark.id, .type⟩] := by
  refine confined_ofScript (List.Subset.refl _) ?_
  rw [confined_bind]
  apply confined_resolveName
  · simp
  · intro id decl _ _
    dsimp only
    split
    · simp
    · simp

theorem symbol_confined (asked : symbols.AsksName asks scope name mark.span.start.offset) :
    (symbol mark name scope).Confined symbols asks [⟨mark.id, .type⟩, ⟨mark.id, .decl⟩] := by
  refine confined_ofScript (by simp) ?_
  rw [confined_bind]
  apply confined_resolveName
  · simp
  · intro id decl found present
    dsimp only
    split
    · simp [confined_bind]
    · split
      · simp [confined_bind]
      · rename_i isValue
        rw [confined_bind]
        apply confined_declaredType
        · intro node is
          exact asked id decl node found present (by simpa using isValue) is
        · intro ty
          simp [confined_bind]

theorem constructor_confined (members : symbols.AsksMembers asks) :
    (Rule.constructor mark name scope).Confined symbols asks
      [⟨mark.id, .type⟩, ⟨mark.id, .decl⟩] := by
  refine confined_ofScript (List.Subset.refl _) ?_
  rw [confined_bind]
  apply confined_resolveName
  · simp
  · intro id decl _ _
    dsimp only
    split
    · rw [confined_bind]
      apply confined_mapM
      · intro field member next after
        apply confined_declaredType _ after
        intro node is
        exact members.all _ field member node is
      · intro fields
        simp [confined_bind]
    · simp

theorem create_confined : (create mark name scope).Confined symbols asks
    [⟨mark.id, .type⟩, ⟨mark.id, .decl⟩] := by
  refine confined_ofScript (List.Subset.refl _) ?_
  rw [confined_bind]
  apply confined_resolveName
  · simp
  · intro id decl _ _
    dsimp only
    split
    · simp [confined_bind]
    · simp

/-! ## Annotations and expressions -/

theorem arrayType_confined {component : NodeId} (asked : asks ⟨component, .type⟩) :
    (arrayType mark component).Confined symbols asks [⟨mark.id, .type⟩] :=
  confined_ofScript (List.Subset.refl _) (by simp [confined_bind, asked])

theorem paren_confined {inner : NodeId} (asked : asks ⟨inner, .type⟩) :
    (paren mark inner).Confined symbols asks [⟨mark.id, .type⟩] :=
  confined_ofScript (List.Subset.refl _) (by simp [confined_bind, asked])

theorem array_confined {elements : List NodeId} {expectation : Expectation}
    (inside : ∀ element ∈ elements, asks ⟨element, .type⟩) (asked : expectation.Asks asks) :
    (array mark elements expectation).Confined symbols asks [⟨mark.id, .type⟩] := by
  refine confined_ofScript (List.Subset.refl _) ?_
  cases elements with
  | nil =>
    dsimp only
    rw [confined_bind]
    apply confined_resolve asked
    intro expected
    split <;> simp
  | cons first rest =>
    dsimp only
    rw [confined_bind, confined_typeOf]
    refine ⟨inside first List.mem_cons_self, fun ty => ?_⟩
    rw [confined_bind]
    apply confined_commonType
    · intro element member
      exact inside element (List.mem_cons_of_mem _ member)
    · simp
    · intro common
      simp

theorem unary_confined {op : PrefixOp} {operand : NodeId} (asked : asks ⟨operand, .type⟩) :
    (unary mark op operand).Confined symbols asks [⟨mark.id, .type⟩] := by
  refine confined_ofScript (List.Subset.refl _) ?_
  rw [confined_bind, confined_typeOf]
  refine ⟨asked, fun ty => ?_⟩
  cases op <;> dsimp only <;> split <;> simp

theorem binaryType_error_own {op : BinaryOp} {left right : Ty} {cause : SemanticError.Cause}
    (failed : binaryType op left right = .error cause) (what : String) :
    cause ≠ .unresolved (.stuck what) := by
  unfold binaryType at failed
  repeat' split at failed
  all_goals cases failed <;> simp

theorem binary_confined {op : BinaryOp} {left right : NodeId} (leftAsked : asks ⟨left, .type⟩)
    (rightAsked : asks ⟨right, .type⟩) :
    (binary mark op left right).Confined symbols asks [⟨mark.id, .type⟩] := by
  refine confined_ofScript (List.Subset.refl _) ?_
  simp only [confined_bind, confined_typeOf]
  refine ⟨leftAsked, fun leftType => ⟨rightAsked, fun rightType => ?_⟩⟩
  split
  · simp
  · rename_i failed
    simp [binaryType_error_own failed]

theorem assign_confined {target : Expr} {value : NodeId} (asked : AsksTarget asks target)
    (targetAsked : asks ⟨target.id, .type⟩) (valueAsked : asks ⟨value, .type⟩) :
    (assign mark target value).Confined symbols asks [⟨mark.id, .type⟩] := by
  refine confined_ofScript (List.Subset.refl _) ?_
  rw [confined_bind]
  apply confined_isAssignable asked
  intro assignable
  split
  · simp
  · simp only [confined_bind, confined_typeOf]
    refine ⟨targetAsked, fun targetType => ⟨valueAsked, fun valueType => ?_⟩⟩
    split <;> simp

theorem call_confined {callee : Expr} {arguments : List Expr}
    (calleeAsked : asks ⟨callee.id, .type⟩)
    (asked : ∀ argument ∈ arguments, asks ⟨argument.id, .type⟩) :
    (call mark callee arguments).Confined symbols asks [⟨mark.id, .type⟩] := by
  refine confined_ofScript (List.Subset.refl _) ?_
  rw [confined_bind, confined_typeOf]
  refine ⟨calleeAsked, fun ty => ?_⟩
  split
  · split
    · simp
    · rw [confined_bind]
      apply confined_checkArguments asked <;> simp
  · simp

theorem index_confined {owner place : Expr} (ownerAsked : asks ⟨owner.id, .type⟩)
    (placeAsked : asks ⟨place.id, .type⟩) :
    (index mark owner place).Confined symbols asks [⟨mark.id, .type⟩] := by
  refine confined_ofScript (List.Subset.refl _) ?_
  simp only [confined_bind, confined_typeOf]
  refine ⟨ownerAsked, fun ownerType => ⟨placeAsked, fun placeType => ?_⟩⟩
  split
  · split <;> simp
  · simp

theorem field_confined (members : symbols.AsksMembers asks) {receiver : NodeId}
    (asked : asks ⟨receiver, .type⟩) :
    (field mark receiver name).Confined symbols asks [⟨mark.id, .type⟩] := by
  refine confined_ofScript (by simp) ?_
  rw [confined_bind, confined_typeOf]
  refine ⟨asked, fun ty => ?_⟩
  split
  · split
    · exact confined_setMember members ‹_› (by simp) (by simp) (by simp)
    · simp
  · simp
  · split <;> simp
  · simp

theorem member_confined (members : symbols.AsksMembers asks) {receiver : NodeId}
    (asked : asks ⟨receiver, .type⟩) :
    (member mark receiver name).Confined symbols asks [⟨mark.id, .type⟩, ⟨mark.id, .decl⟩] := by
  refine confined_ofScript (List.Subset.refl _) ?_
  rw [confined_bind, confined_typeOf]
  refine ⟨asked, fun ty => ?_⟩
  split
  · split
    · exact confined_setMember members ‹_› (by simp) (by simp) (by simp)
    · simp
  · simp

/-! ## Declarations and statements -/

theorem annotated_confined {node type : NodeId} {what : String} {span : Span}
    (asked : asks ⟨type, .type⟩) :
    (annotated node type what span).Confined symbols asks [⟨node, .declType⟩] :=
  confined_ofScript (List.Subset.refl _) (by simp [confined_bind, asked])

theorem initializer_confined {type : NodeId} {value : Expr} (typeAsked : asks ⟨type, .type⟩)
    (valueAsked : asks ⟨value.id, .type⟩) :
    (initializer name type value).Confined symbols asks [] := by
  refine confined_ofScript (List.Subset.refl _) ?_
  simp only [confined_bind, confined_typeOf]
  refine ⟨typeAsked, fun expected => ⟨valueAsked, fun actual => ?_⟩⟩
  split <;> simp

theorem inferred_confined {value : NodeId} (asked : asks ⟨value, .type⟩) :
    (inferred mark name value).Confined symbols asks [⟨mark.id, .declType⟩] := by
  refine confined_ofScript (List.Subset.refl _) ?_
  rw [confined_bind, confined_typeOf]
  refine ⟨asked, fun ty => ?_⟩
  split <;> simp

theorem signature_confined {decl : FunctionDecl}
    (parameters : ∀ parameter ∈ decl.parameters, asks ⟨parameter.type.id, .type⟩)
    (result : ∀ type, decl.result = some type → asks ⟨type.id, .type⟩) :
    (signature decl).Confined symbols asks [⟨decl.mark.id, .declType⟩] := by
  refine confined_ofScript (List.Subset.refl _) ?_
  rw [confined_bind]
  apply confined_mapM
  · intro parameter member next after
    exact confined_typeOf.mpr ⟨parameters parameter member, after⟩
  · intro params
    rw [confined_bind]
    apply confined_resultType result
    intro ty
    simp

theorem returnsAlways_confined {decl : FunctionDecl} {result : NodeId}
    (resultAsked : asks ⟨result, .type⟩) (bodyAsked : asks ⟨decl.body.mark.id, .returns⟩) :
    (returnsAlways decl result).Confined symbols asks [] := by
  refine confined_ofScript (List.Subset.refl _) ?_
  rw [confined_bind, confined_typeOf]
  refine ⟨resultAsked, fun ty => ?_⟩
  split
  · rw [confined_bind, confined_returnsOf]
    refine ⟨bodyAsked, fun value => ?_⟩
    split <;> simp
  · simp

theorem blockReturns_confined {last : Option NodeId}
    (asked : ∀ node, last = some node → asks ⟨node, .returns⟩) :
    (blockReturns mark last).Confined symbols asks [⟨mark.id, .returns⟩] := by
  refine confined_ofScript (List.Subset.refl _) ?_
  cases last with
  | none => simp
  | some node => simp [confined_bind, asked node rfl]

theorem condition_confined {statement : Conditional} {e : Expr} (asked : asks ⟨e.id, .type⟩) :
    (condition statement e).Confined symbols asks [] := by
  refine confined_ofScript (List.Subset.refl _) ?_
  rw [confined_bind, confined_typeOf]
  refine ⟨asked, fun ty => ?_⟩
  split <;> simp

theorem branchesReturn_confined {thenBody : NodeId} {elseBody : Option NodeId}
    (thenAsked : asks ⟨thenBody, .returns⟩)
    (elseAsked : ∀ node, elseBody = some node → asks ⟨node, .returns⟩) :
    (branchesReturn mark thenBody elseBody).Confined symbols asks [⟨mark.id, .returns⟩] := by
  refine confined_ofScript (List.Subset.refl _) ?_
  rw [confined_bind, confined_returnsOf]
  refine ⟨thenAsked, fun value => ?_⟩
  split
  · cases elseBody with
    | none => simp
    | some node => simp [confined_bind, elseAsked node rfl]
  · simp

theorem returned_confined {value : Option Expr} {enclosing : FunctionDecl}
    (resultAsked : ∀ type, enclosing.result = some type → asks ⟨type.id, .type⟩)
    (valueAsked : ∀ e, value = some e → asks ⟨e.id, .type⟩) :
    (returned mark value enclosing).Confined symbols asks [] := by
  refine confined_ofScript (List.Subset.refl _) ?_
  rw [confined_bind]
  apply confined_resultType resultAsked
  intro expected
  cases value with
  | none =>
    dsimp only
    split <;> simp
  | some e =>
    dsimp only
    rw [confined_bind, confined_typeOf]
    refine ⟨valueAsked e rfl, fun ty => ?_⟩
    split <;> simp

end Rule

/-! ## The rules of annotations and expressions -/

/-- The questions about the parts of an expression. -/
def Expr.asked : Expr → List FactKey
  | .array _ elements => elements.map fun e => ⟨e.id, .type⟩
  | .paren _ inner => [⟨inner.id, .type⟩]
  | .unary _ _ operand => [⟨operand.id, .type⟩]
  | .binary _ _ left right => [⟨left.id, .type⟩, ⟨right.id, .type⟩]
  | .assign _ target value => [⟨target.id, .type⟩, ⟨value.id, .type⟩]
  | .call _ callee arguments => ⟨callee.id, .type⟩ :: arguments.map fun e => ⟨e.id, .type⟩
  | .index _ owner place => [⟨owner.id, .type⟩, ⟨place.id, .type⟩]
  | .field _ receiver _ => [⟨receiver.id, .type⟩]
  | .member _ receiver _ => [⟨receiver.id, .type⟩]
  | _ => []

/-- An expression whose rule asks questions of a set only. -/
structure Expr.Asks (symbols : SymbolTable) (asks : FactKey → Prop) (scope : ScopeId)
    (expectation : Expectation) (e : Expr) : Prop where
  parts : ∀ key ∈ e.asked, asks key
  expected : expectation.Asks asks
  name : ∀ mark name, e = .symbol mark name →
    symbols.AsksName asks scope name mark.span.start.offset
  target : ∀ mark target value, e = .assign mark target value → Rule.AsksTarget asks target

section

variable {symbols : SymbolTable} {asks : FactKey → Prop} {scope : ScopeId}

/-! A rule that may ask anything is confined. -/

theorem Expectation.asks_of_forall (all : ∀ key, asks key) (expectation : Expectation) :
    expectation.Asks asks := by
  induction expectation with
  | none => trivial
  | type node => exact all _
  | param callee index => exact all _
  | element outer ih => exact ih

theorem SymbolTable.asksMembers_of_forall (all : ∀ key, asks key) : symbols.AsksMembers asks where
  all := fun _ _ _ _ _ => all _
  lookup := fun _ _ _ _ _ _ _ _ => all _

theorem Expr.asks_of_forall (all : ∀ key, asks key) (expectation : Expectation) (e : Expr) :
    e.Asks symbols asks scope expectation where
  parts := fun key _ => all key
  expected := Expectation.asks_of_forall all expectation
  name := fun _ _ _ _ _ _ _ _ _ _ => all _
  target := fun _ _ _ _ => ⟨fun key _ => all key, fun _ _ _ _ => all _⟩

theorem TypeExpr.rule_confined {type : TypeExpr}
    (asked : ∀ mark component, type = .array mark component → asks ⟨component.id, .type⟩) :
    (type.rule scope).Confined symbols asks [⟨type.id, .type⟩] := by
  cases type with
  | named mark name => exact Rule.typeName_confined
  | array mark component => exact Rule.arrayType_confined (asked mark component rfl)

theorem Expr.rule_confined {expectation : Expectation} {e : Expr} {rule : Rule}
    (members : symbols.AsksMembers asks) (asked : e.Asks symbols asks scope expectation)
    (found : e.finding scope expectation = .rule rule) : rule.Confined symbols asks e.owes := by
  have parts := asked.parts
  cases e with
  | int _ _ | float _ _ | string _ _ | bool _ _ | null _ => cases found
  | symbol mark name =>
    cases found
    exact Rule.symbol_confined (asked.name mark name rfl)
  | array mark elements =>
    cases found
    apply Rule.array_confined _ asked.expected
    intro element member
    obtain ⟨e, inside, rfl⟩ := List.mem_map.mp member
    exact parts _ (List.mem_map.mpr ⟨e, inside, rfl⟩)
  | paren mark inner =>
    cases found
    exact Rule.paren_confined (parts _ List.mem_cons_self)
  | unary mark op operand =>
    cases found
    exact Rule.unary_confined (parts _ List.mem_cons_self)
  | binary mark op left right =>
    cases found
    exact Rule.binary_confined (parts _ (by simp [Expr.asked])) (parts _ (by simp [Expr.asked]))
  | assign mark target value =>
    cases found
    exact Rule.assign_confined (asked.target mark target value rfl)
      (parts _ (by simp [Expr.asked])) (parts _ (by simp [Expr.asked]))
  | call mark callee arguments =>
    cases found
    apply Rule.call_confined (parts _ List.mem_cons_self)
    intro argument member
    exact parts _ (List.mem_cons_of_mem _ (List.mem_map.mpr ⟨argument, member, rfl⟩))
  | index mark owner place =>
    cases found
    exact Rule.index_confined (parts _ (by simp [Expr.asked])) (parts _ (by simp [Expr.asked]))
  | field mark receiver name =>
    cases found
    exact Rule.field_confined members (parts _ List.mem_cons_self)
  | member mark receiver name =>
    cases found
    exact Rule.member_confined members (parts _ List.mem_cons_self)
  | constructor mark name =>
    cases found
    exact Rule.constructor_confined members
  | create mark name =>
    cases found
    exact Rule.create_confined

end

end BoxScript
