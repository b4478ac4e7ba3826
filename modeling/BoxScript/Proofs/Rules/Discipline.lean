import BoxScript.Proofs.Rules.Script
import BoxScript.Typing.Walk

/-!
# The discipline of the typing rules

Under a coherent symbol table no typing rule is ever dropped, as long as the answers it reads are of
the right sort, and each answers only the questions it is to answer (`Rule.IsRegular`). A table is
coherent if the names of its scopes mean declarations of its own, and only builtins lack a node.
-/

set_option autoImplicit false

namespace BoxScript

/-- What the typing rules take for granted of a symbol table. -/
structure SymbolTable.Coherent (symbols : SymbolTable) : Prop where
  declared : ∀ {scope : ScopeId} {name : String} {id : DeclId},
    symbols.declaredIn? scope name = some id → id < symbols.decls.size
  anchored : ∀ {id : DeclId} {decl : Declaration}, symbols.decls[id]? = some decl →
    decl.node = none → decl.kind.isType = true ∨ ∃ function, decl.kind = .builtinFunction function
  lookupMember : ∀ {owner : NodeId} {name : String} {id : DeclId},
    symbols.lookupMember? owner name = some id →
      ∃ decl, symbols.decls[id]? = some decl ∧ decl.node.isSome = true
  members : ∀ {owner : NodeId} {decl : Declaration}, decl ∈ symbols.members owner →
    decl.node.isSome = true

/-- A rule given by a disciplined script. -/
def Rule.IsRegular (symbols : SymbolTable) (rule : Rule) : Prop :=
  ∃ script : Script Unit, (∀ facts, rule.attempt symbols facts = script.attempt facts) ∧
    script.Disciplined symbols rule.produces fun _ => True

/-- A name is found in the first scope that has a visible declaration of it. -/
theorem SymbolTable.lookupAlong_eq_ok {symbols : SymbolTable} {name : String} {position : Nat}
    {passed : Bool} {scopes : List ScopeId} {id : DeclId}
    (found : symbols.lookupAlong name position passed scopes = .ok id) :
    ∃ before scope after, scopes = before ++ scope :: after ∧
      symbols.declaredIn? scope name = some id ∧ symbols.isVisible scope id position = true ∧
      ∀ inner ∈ before, ∀ other, symbols.declaredIn? inner name = some other →
        symbols.isVisible inner other position = false := by
  induction scopes generalizing passed with
  | nil => cases passed <;> simp [lookupAlong] at found
  | cons scope outer ih =>
    simp only [lookupAlong] at found
    split at found
    · rename_i absent
      obtain ⟨before, home, after, rfl, declared, visible, hidden⟩ := ih found
      refine ⟨scope :: before, home, after, rfl, declared, visible,
        fun inner member other here => ?_⟩
      rcases List.mem_cons.mp member with rfl | member
      · rw [absent] at here
        cases here
      · exact hidden inner member other here
    · rename_i first present
      split at found
      · rename_i visible
        cases found
        exact ⟨[], scope, outer, rfl, present, visible, by simp⟩
      · rename_i invisible
        obtain ⟨before, home, after, rfl, declared, visible, hidden⟩ := ih found
        refine ⟨scope :: before, home, after, rfl, declared, visible,
          fun inner member other here => ?_⟩
        rcases List.mem_cons.mp member with rfl | member
        · rw [present] at here
          cases here
          simpa using invisible
        · exact hidden inner member other here

namespace Rule

open Script

variable {symbols : SymbolTable} {produces : List FactKey} {mark : Mark} {name : String}
  {scope : ScopeId}

theorem isRegular_ofScript {what : String} {span : Span} {script : SymbolTable → Script Unit}
    (disciplined : (script symbols).Disciplined symbols produces fun _ => True) :
    (ofScript produces what span script).IsRegular symbols :=
  ⟨script symbols, fun _ => rfl, disciplined⟩

/-! ## Parts of rules -/

theorem disciplined_declaration {id : DeclId} {post : Declaration → Prop}
    (bound : id < symbols.decls.size) (after : ∀ decl, symbols.decls[id]? = some decl → post decl) :
    (declaration symbols id).Disciplined symbols produces post := by
  unfold declaration
  rw [Array.getElem?_eq_getElem bound]
  exact after _ (Array.getElem?_eq_getElem bound)

theorem disciplined_declaredType {decl : Declaration} {post : Ty → Prop}
    (declares : decl.node.isSome = true) (after : ∀ ty, post ty) :
    (declaredType decl).Disciplined symbols produces post := by
  obtain ⟨node, found⟩ := Option.isSome_iff_exists.mp declares
  simp only [declaredType, found, disciplined_declTypeOf]
  exact after

theorem disciplined_resolveName (coherent : symbols.Coherent) {span : Span}
    {post : Option (DeclId × Declaration) → Prop} (unknown : post none)
    (after : ∀ id decl, id < symbols.decls.size → symbols.decls[id]? = some decl →
      post (some (id, decl))) :
    (resolveName symbols scope name span).Disciplined symbols produces post := by
  unfold resolveName
  split
  · rename_i id found
    obtain ⟨_, _, _, _, declared, _⟩ := SymbolTable.lookupAlong_eq_ok found
    have bound := coherent.declared declared
    rw [disciplined_bind]
    exact disciplined_declaration bound fun decl present => after id decl bound present
  · rw [disciplined_bind, disciplined_error]
    exact unknown

theorem disciplined_mapM {α β : Type} {script : α → Script β} {as : List α} {post : List β → Prop}
    (each : ∀ a ∈ as, ∀ {next : β → Prop}, (∀ b, next b) →
      (script a).Disciplined symbols produces next)
    (after : ∀ bs, post bs) : (as.mapM script).Disciplined symbols produces post := by
  induction as generalizing post with
  | nil => exact after []
  | cons a as ih =>
    rw [List.mapM_cons, disciplined_bind]
    refine each a List.mem_cons_self fun b => ?_
    rw [disciplined_bind]
    exact ih (fun a member => each a (List.mem_cons_of_mem _ member)) fun bs => after (b :: bs)

theorem disciplined_resolve {expectation : Expectation} {post : Option Ty → Prop}
    (after : ∀ ty, post ty) : expectation.resolve.Disciplined symbols produces post := by
  induction expectation generalizing post with
  | none => exact after none
  | type node =>
    rw [Expectation.resolve, map_eq_pure_bind, disciplined_bind, disciplined_typeOf]
    exact fun ty => after (some ty)
  | param callee index =>
    rw [Expectation.resolve, disciplined_bind, disciplined_typeOf]
    intro ty
    split <;> exact after _
  | element outer ih =>
    rw [Expectation.resolve, disciplined_bind]
    exact ih fun ty => after _

theorem disciplined_commonType {span : Span} {component : Ty} {elements : List NodeId}
    {post : Option Ty → Prop} (after : ∀ ty, post ty) :
    (commonType span component elements).Disciplined symbols produces post := by
  induction elements generalizing component with
  | nil => exact after (some component)
  | cons element rest ih =>
    rw [commonType, disciplined_bind, disciplined_typeOf]
    intro ty
    split
    · exact ih
    · rw [disciplined_bind, disciplined_error]
      exact after none

theorem disciplined_isAssignable {target : Expr} {post : Bool → Prop}
    (after : ∀ value, post value) :
    (isAssignable symbols target).Disciplined symbols produces post := by
  unfold isAssignable
  split
  · rw [disciplined_bind, disciplined_declOf]
    intro id bound
    rw [disciplined_bind]
    refine disciplined_declaration bound fun decl _ => ?_
    split <;> exact after _
  · exact after true
  · rw [disciplined_bind, disciplined_typeOf]
    intro ty
    split <;> exact after _
  · rw [disciplined_bind, disciplined_declOf]
    intro id bound
    rw [disciplined_bind]
    refine disciplined_declaration bound fun decl _ => ?_
    split <;> exact after _
  · exact after false

theorem disciplined_checkArguments {index : Nat} {params : List Ty} {given : List Expr}
    {post : Unit → Prop} (after : post ()) :
    (checkArguments index params given).Disciplined symbols produces post := by
  induction params generalizing index given with
  | nil => exact after
  | cons param params ih =>
    cases given with
    | nil => exact after
    | cons argument rest =>
      rw [checkArguments, disciplined_bind, disciplined_typeOf]
      intro ty
      split
      · rw [disciplined_bind, disciplined_error]
        exact ih
      · exact ih

theorem disciplined_setMember (coherent : symbols.Coherent) {owner : NodeId} {id : DeclId}
    (member : symbols.lookupMember? owner name = some id)
    (type : ⟨mark.id, .type⟩ ∈ produces) (reference : ⟨mark.id, .decl⟩ ∈ produces) :
    (setMember symbols mark.id id).Disciplined symbols produces fun _ => True := by
  obtain ⟨decl, present, declares⟩ := coherent.lookupMember member
  have bound : id < symbols.decls.size := (Array.getElem?_eq_some_iff.mp present).1
  unfold setMember
  rw [disciplined_bind]
  refine disciplined_declaration bound fun found presentToo => ?_
  rw [present] at presentToo
  cases presentToo
  rw [disciplined_bind]
  refine disciplined_declaredType declares fun ty => ?_
  simp only [disciplined_bind, disciplined_setDecl, disciplined_setType]
  exact ⟨reference, bound, type, trivial⟩

theorem disciplined_resultType {decl : FunctionDecl} {post : Ty → Prop} (after : ∀ ty, post ty) :
    (resultType decl).Disciplined symbols produces post := by
  unfold resultType
  split
  · rw [disciplined_typeOf]
    exact after
  · exact after .void

/-! ## The rules -/

theorem typeName_isRegular (coherent : symbols.Coherent) :
    (typeName mark name scope).IsRegular symbols := by
  refine isRegular_ofScript ?_
  rw [disciplined_bind]
  refine disciplined_resolveName coherent trivial fun id decl _ _ => ?_
  dsimp only
  split
  · simp
  · simp

theorem arrayType_isRegular {component : NodeId} :
    (arrayType mark component).IsRegular symbols :=
  isRegular_ofScript (by simp [disciplined_bind])

theorem symbol_isRegular (coherent : symbols.Coherent) :
    (symbol mark name scope).IsRegular symbols := by
  refine isRegular_ofScript ?_
  rw [disciplined_bind]
  refine disciplined_resolveName coherent trivial fun id decl bound present => ?_
  dsimp only
  split
  · simp [disciplined_bind, bound]
  · rename_i notBuiltin
    split
    · simp [disciplined_bind, bound]
    · rename_i isValue
      have declares : decl.node.isSome = true := by
        cases node : decl.node with
        | some _ => rfl
        | none =>
          rcases coherent.anchored present node with isType | ⟨function, kind⟩
          · exact absurd isType isValue
          · exact absurd kind (notBuiltin function)
      rw [disciplined_bind]
      refine disciplined_declaredType declares fun ty => ?_
      simp [disciplined_bind, bound]

theorem constructor_isRegular (coherent : symbols.Coherent) :
    (Rule.constructor mark name scope).IsRegular symbols := by
  refine isRegular_ofScript ?_
  rw [disciplined_bind]
  refine disciplined_resolveName coherent trivial fun id decl bound present => ?_
  dsimp only
  split
  · rw [disciplined_bind]
    refine disciplined_mapM (fun field member _ after => ?_) fun fields => ?_
    · exact disciplined_declaredType (coherent.members member) after
    · simp [disciplined_bind, bound]
  · simp

theorem create_isRegular (coherent : symbols.Coherent) :
    (create mark name scope).IsRegular symbols := by
  refine isRegular_ofScript ?_
  rw [disciplined_bind]
  refine disciplined_resolveName coherent trivial fun id decl bound present => ?_
  dsimp only
  split
  · simp [disciplined_bind, bound]
  · simp

theorem paren_isRegular {inner : NodeId} : (paren mark inner).IsRegular symbols :=
  isRegular_ofScript (by simp [disciplined_bind])

theorem array_isRegular {elements : List NodeId} {expectation : Expectation} :
    (array mark elements expectation).IsRegular symbols := by
  refine isRegular_ofScript ?_
  cases elements with
  | nil =>
    dsimp only
    rw [disciplined_bind]
    refine disciplined_resolve fun expected => ?_
    split <;> simp
  | cons first rest =>
    dsimp only
    rw [disciplined_bind, disciplined_typeOf]
    intro ty
    rw [disciplined_bind]
    refine disciplined_commonType fun common => ?_
    split <;> simp

theorem unary_isRegular {op : PrefixOp} {operand : NodeId} :
    (unary mark op operand).IsRegular symbols := by
  refine isRegular_ofScript ?_
  rw [disciplined_bind, disciplined_typeOf]
  intro ty
  cases op <;> dsimp only <;> split <;> simp

theorem binary_isRegular {op : BinaryOp} {left right : NodeId} :
    (binary mark op left right).IsRegular symbols := by
  refine isRegular_ofScript ?_
  simp only [disciplined_bind, disciplined_typeOf]
  intro leftType rightType
  split <;> simp

theorem assign_isRegular {target : Expr} {value : NodeId} :
    (assign mark target value).IsRegular symbols := by
  refine isRegular_ofScript ?_
  rw [disciplined_bind]
  refine disciplined_isAssignable fun assignable => ?_
  split
  · simp
  · simp only [disciplined_bind, disciplined_typeOf]
    intro targetType valueType
    split <;> simp

theorem call_isRegular {callee : Expr} {given : List Expr} :
    (call mark callee given).IsRegular symbols := by
  refine isRegular_ofScript ?_
  rw [disciplined_bind, disciplined_typeOf]
  intro ty
  split
  · split
    · simp
    · rw [disciplined_bind]
      exact disciplined_checkArguments (by simp)
  · simp

theorem index_isRegular {owner place : Expr} : (index mark owner place).IsRegular symbols := by
  refine isRegular_ofScript ?_
  simp only [disciplined_bind, disciplined_typeOf]
  intro ownerType placeType
  split
  · split <;> simp
  · simp

theorem field_isRegular (coherent : symbols.Coherent) {receiver : NodeId} :
    (field mark receiver name).IsRegular symbols := by
  refine isRegular_ofScript ?_
  rw [disciplined_bind, disciplined_typeOf]
  intro ty
  split
  · split
    · exact disciplined_setMember coherent ‹_› (by simp) (by simp)
    · simp
  · simp
  · split <;> simp
  · simp

theorem member_isRegular (coherent : symbols.Coherent) {receiver : NodeId} :
    (member mark receiver name).IsRegular symbols := by
  refine isRegular_ofScript ?_
  rw [disciplined_bind, disciplined_typeOf]
  intro ty
  split
  · split
    · exact disciplined_setMember coherent ‹_› (by simp) (by simp)
    · simp
  · simp

theorem annotated_isRegular {node type : NodeId} {what : String} {span : Span} :
    (annotated node type what span).IsRegular symbols :=
  isRegular_ofScript (by simp [disciplined_bind])

theorem initializer_isRegular {type : NodeId} {value : Expr} :
    (initializer name type value).IsRegular symbols := by
  refine isRegular_ofScript ?_
  simp only [disciplined_bind, disciplined_typeOf]
  intro expected actual
  split <;> simp

theorem inferred_isRegular {value : NodeId} : (inferred mark name value).IsRegular symbols := by
  refine isRegular_ofScript ?_
  rw [disciplined_bind, disciplined_typeOf]
  intro ty
  split <;> simp

theorem signature_isRegular {decl : FunctionDecl} : (signature decl).IsRegular symbols := by
  refine isRegular_ofScript ?_
  rw [disciplined_bind]
  refine disciplined_mapM (fun _ _ _ after => disciplined_typeOf.mpr after) fun params => ?_
  rw [disciplined_bind]
  exact disciplined_resultType fun result => by simp

theorem returnsAlways_isRegular {decl : FunctionDecl} {result : NodeId} :
    (returnsAlways decl result).IsRegular symbols := by
  refine isRegular_ofScript ?_
  rw [disciplined_bind, disciplined_typeOf]
  intro ty
  split
  · rw [disciplined_bind, disciplined_returnsOf]
    intro value
    split <;> simp
  · simp

theorem blockReturns_isRegular {last : Option NodeId} :
    (blockReturns mark last).IsRegular symbols := by
  refine isRegular_ofScript ?_
  cases last <;> simp [disciplined_bind]

theorem condition_isRegular {statement : Conditional} {e : Expr} :
    (condition statement e).IsRegular symbols := by
  refine isRegular_ofScript ?_
  rw [disciplined_bind, disciplined_typeOf]
  intro ty
  split <;> simp

theorem branchesReturn_isRegular {thenBody : NodeId} {elseBody : Option NodeId} :
    (branchesReturn mark thenBody elseBody).IsRegular symbols := by
  refine isRegular_ofScript ?_
  rw [disciplined_bind, disciplined_returnsOf]
  intro value
  split
  · cases elseBody <;> simp [disciplined_bind]
  · simp

theorem returned_isRegular {value : Option Expr} {enclosing : FunctionDecl} :
    (returned mark value enclosing).IsRegular symbols := by
  refine isRegular_ofScript ?_
  rw [disciplined_bind]
  refine disciplined_resultType fun expected => ?_
  cases value with
  | some value =>
    dsimp only
    rw [disciplined_bind, disciplined_typeOf]
    intro ty
    split <;> simp
  | none =>
    dsimp only
    split <;> simp

end Rule

end BoxScript
