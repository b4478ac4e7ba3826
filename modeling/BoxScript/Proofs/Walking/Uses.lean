import BoxScript.Proofs.Syntax.Identities
import BoxScript.Typing.Walk
import Mathlib.Data.List.Count
import Mathlib.Data.List.Flatten
import Mathlib.Data.List.Nodup
import Mathlib.Data.List.Pairwise

/-!
# What the walk does with each node

A step of the walk may answer a question about a node, by a rule or at once, may declare something
for a node, or make a scope the member scope of a node. The walk over a tree does each of these at
most once with each node of the tree, and with no other nodes (`tally_stmts_le` and the lemmas
before it). So where the nodes of a program have identities of their own, no question is answered
twice, and a node declares at most one thing.
-/

set_option autoImplicit false

namespace BoxScript

/-- What a node is used for. -/
inductive Role
  | answer (kind : FactKind)
  | declaration
  | owner
  deriving DecidableEq

namespace Step

/-- The questions that a step answers, at once or by a rule. -/
def answers (step : Step) : List FactKey :=
  step.facts.map (·.1) ++ step.rules.flatMap Rule.produces

/-- The nodes that a step uses. -/
def uses (step : Step) : List (NodeId × Role) :=
  (step.answers.map fun key => (key.node, .answer key.kind)) ++
    match step with
    | declare _ _ _ mark _ => [(mark.id, .declaration)]
    | setMembers owner _ => [(owner, .owner)]
    | _ => []

/-- How often steps use a node in a role. -/
def tally (node : NodeId) (role : Role) (steps : List Step) : Nat :=
  (steps.flatMap uses).count (node, role)

variable {node : NodeId} {role : Role}

@[simp]
theorem tally_nil : tally node role [] = 0 := rfl

theorem tally_append (first second : List Step) :
    tally node role (first ++ second) = tally node role first + tally node role second := by
  simp only [tally, List.flatMap_append, List.count_append]

theorem tally_cons (step : Step) (steps : List Step) :
    tally node role (step :: steps) = tally node role [step] + tally node role steps :=
  tally_append [step] steps

/-- Steps that use one node, in each role at most once. -/
theorem tally_of_roles {steps : List Step} {id : NodeId} {roles : List Role}
    (uses : steps.flatMap Step.uses = roles.map fun role => (id, role)) (distinct : roles.Nodup) :
    tally node role steps = if role ∈ roles then [id].count node else 0 := by
  rw [tally, uses]
  by_cases same : id = node
  · subst same
    rw [List.count_map_of_injective _ _ (fun _ _ equal => (Prod.mk.inj equal).2),
      List.Nodup.count distinct, List.count_singleton_self]
  · rw [List.count_eq_zero.mpr (by simp [same]), List.count_singleton]
    simp [same]

theorem tally_le_of_roles {steps : List Step} {id : NodeId} (roles : List Role)
    (uses : steps.flatMap Step.uses = roles.map fun role => (id, role)) (distinct : roles.Nodup) :
    tally node role steps ≤ [id].count node := by
  rw [tally_of_roles uses distinct]
  split
  · exact Nat.le_refl _
  · exact Nat.zero_le _

theorem tally_declare {scope : ScopeId} {name : String} {kind : DeclKind} {mark : Mark}
    {position : Nat} : tally node role [.declare scope name kind mark position] =
      if role ∈ [.declaration] then [mark.id].count node else 0 :=
  tally_of_roles rfl (by decide)

theorem tally_returns {mark : Mark} {value : Bool} :
    tally node role [.returns mark value] =
      if role ∈ [.answer .returns] then [mark.id].count node else 0 :=
  tally_of_roles rfl (by decide)

theorem tally_openScope {scope parent : ScopeId} {kind : ScopeKind} :
    tally node role [.openScope scope kind parent] = 0 := rfl

theorem tally_setMembers {id : NodeId} {scope : ScopeId} :
    tally node role [.setMembers id scope] =
      if role ∈ [.owner] then [id].count node else 0 :=
  tally_of_roles rfl (by decide)

theorem tally_typeExpr_le {scope : ScopeId} {type : TypeExpr} :
    tally node role [.typeExpr scope type] ≤ [type.id].count node := by
  cases type <;> exact tally_le_of_roles [.answer .type] rfl (by decide)

theorem tally_expr_le {scope : ScopeId} {expectation : Expectation} {e : Expr} :
    tally node role [.expr scope expectation e] ≤ [e.id].count node := by
  cases e with
  | symbol mark name => exact tally_le_of_roles [.answer .decl, .answer .type] rfl (by decide)
  | field mark receiver name =>
    exact tally_le_of_roles [.answer .type, .answer .decl] rfl (by decide)
  | member mark receiver name =>
    exact tally_le_of_roles [.answer .type, .answer .decl] rfl (by decide)
  | constructor mark name => exact tally_le_of_roles [.answer .type, .answer .decl] rfl (by decide)
  | create mark name => exact tally_le_of_roles [.answer .type, .answer .decl] rfl (by decide)
  | _ => exact tally_le_of_roles [.answer .type] rfl (by decide)

end Step

namespace Walk

open Step

variable {node : NodeId} {role : Role}

theorem tally_append_le {first second : List Step} {ids more : List NodeId}
    (left : tally node role first ≤ ids.count node)
    (right : tally node role second ≤ more.count node) :
    tally node role (first ++ second) ≤ (ids ++ more).count node := by
  rw [tally_append, List.count_append]
  exact Nat.add_le_add left right

/-! ## Types and expressions -/

theorem tally_typeExpr_le (scope : ScopeId) (type : TypeExpr) :
    tally node role (typeExpr scope type) ≤ type.ids.count node := by
  induction type with
  | named mark name => exact Step.tally_typeExpr_le
  | array mark component ih => exact tally_append_le ih Step.tally_typeExpr_le

mutual

theorem tally_expr_le (scope : ScopeId) : ∀ (expectation : Expectation) (e : Expr),
    tally node role (expr scope expectation e) ≤ e.ids.count node
  | expectation, .array _ elements =>
    tally_append_le (tally_exprs_le scope (.element expectation) elements) Step.tally_expr_le
  | expectation, .paren _ inner =>
    tally_append_le (tally_expr_le scope expectation inner) Step.tally_expr_le
  | _, .unary _ _ operand => tally_append_le (tally_expr_le scope .none operand) Step.tally_expr_le
  | _, .binary _ _ left right =>
    tally_append_le
      (tally_append_le (tally_expr_le scope .none left) (tally_expr_le scope .none right))
      Step.tally_expr_le
  | _, .assign _ target value =>
    tally_append_le
      (tally_append_le (tally_expr_le scope .none target)
        (tally_expr_le scope (.type target.id) value))
      Step.tally_expr_le
  | _, .call _ callee given =>
    tally_append_le
      (tally_append_le (tally_expr_le scope .none callee)
        (tally_arguments_le scope callee.id 0 given))
      Step.tally_expr_le
  | _, .index _ owner place =>
    tally_append_le
      (tally_append_le (tally_expr_le scope .none owner) (tally_expr_le scope .none place))
      Step.tally_expr_le
  | _, .field _ receiver _ =>
    tally_append_le (tally_expr_le scope .none receiver) Step.tally_expr_le
  | _, .member _ receiver _ =>
    tally_append_le (tally_expr_le scope .none receiver) Step.tally_expr_le
  | _, .int _ _ | _, .float _ _ | _, .string _ _ | _, .bool _ _ | _, .null _ | _, .symbol _ _
  | _, .constructor _ _ | _, .create _ _ => Step.tally_expr_le

theorem tally_exprs_le (scope : ScopeId) : ∀ (expectation : Expectation) (es : List Expr),
    tally node role (exprs scope expectation es) ≤ (Expr.idsOfAll es).count node
  | _, [] => Nat.le_refl _
  | expectation, e :: rest =>
    tally_append_le (tally_expr_le scope expectation e) (tally_exprs_le scope expectation rest)

theorem tally_arguments_le (scope : ScopeId) : ∀ (callee : NodeId) (index : Nat) (es : List Expr),
    tally node role (arguments scope callee index es) ≤ (Expr.idsOfAll es).count node
  | _, _, [] => Nat.le_refl _
  | callee, index, e :: rest =>
    tally_append_le (tally_expr_le scope (.param callee index) e)
      (tally_arguments_le scope callee (index + 1) rest)

end

/-! ## Declarations -/

theorem tally_varDecl_le (scope : ScopeId) (decl : VariableDecl) :
    tally node role (varDecl scope decl) ≤ decl.ids.count node := by
  obtain ⟨mark, name, form⟩ := decl
  cases form with
  | typed type value =>
    cases value with
    | none =>
      simp only [varDecl, List.append_assoc]
      exact tally_append_le (tally_typeExpr_le scope type)
        (tally_le_of_roles [.declaration, .answer .returns, .answer .declType] rfl (by decide))
    | some value =>
      simp only [varDecl, List.append_assoc, VariableDecl.ids, VariableForm.ids]
      exact tally_append_le (tally_typeExpr_le scope type)
        (tally_append_le (tally_expr_le scope (.type type.id) value)
          (tally_le_of_roles [.declaration, .answer .returns, .answer .declType] rfl (by decide)))
  | inferred value =>
    simp only [varDecl, List.append_assoc, VariableDecl.ids, VariableForm.ids]
    exact tally_append_le (tally_expr_le scope .none value)
      (tally_le_of_roles [.declaration, .answer .returns, .answer .declType] rfl (by decide))

theorem tally_fields_le (scope members : ScopeId) (owner : String) : ∀ fields : List TypedName,
    tally node role (Walk.fields scope members owner fields) ≤
      (fields.flatMap TypedName.ids).count node
  | [] => Nat.le_refl _
  | field :: rest => by
    rw [List.flatMap_cons]
    refine tally_append_le ?_ (tally_fields_le scope members owner rest)
    exact tally_append_le (tally_typeExpr_le scope field.type)
      (tally_le_of_roles [.declaration, .answer .declType] rfl (by decide))

theorem tally_parameters_le (scope inner : ScopeId) : ∀ names : List TypedName,
    tally node role (parameterTypes scope names) + tally node role (parameters inner names) ≤
      (names.flatMap TypedName.ids).count node
  | [] => Nat.le_refl _
  | name :: rest => by
    have type : tally node role (typeExpr scope name.type) ≤ _ := tally_typeExpr_le scope name.type
    have own : tally node role [.declare inner name.name .param name.mark 0,
        annotated name s!"type of parameter `{name.name}`"] ≤ [name.mark.id].count node :=
      tally_le_of_roles [.declaration, .answer .declType] rfl (by decide)
    have others := tally_parameters_le scope inner rest
    simp only [parameterTypes, parameters, tally_append, List.flatMap_cons, List.count_append,
      TypedName.ids]
    omega

/-- How often the declaration of what is visible throughout a block uses its node. -/
theorem tally_hoist_cons (scope : ScopeId) (s : Stmt) (rest : List Stmt) :
    tally node role (hoist scope (s :: rest)) =
      tally node role (hoist scope [s]) + tally node role (hoist scope rest) := by
  cases s <;> first | exact tally_cons _ _ | simp [hoist]

/-- The scope of a branch or loop body declares what the body does. -/
theorem tally_openBody (scope next : ScopeId) (s : Stmt) :
    tally node role (openBody scope next s) = tally node role (hoist next [s]) := by
  cases s <;> rfl

/-! ## Statements -/

mutual

theorem tally_stmt_le (scope next home : ScopeId) (enclosing : Option FunctionDecl) : ∀ s : Stmt,
    tally node role (hoist home [s]) + tally node role (stmt scope next enclosing s) ≤
      s.ids.count node
  | .block b => by
    have inside := tally_block_le scope next enclosing b
    simp only [hoist, tally_nil, Nat.zero_add, stmt, Stmt.ids]
    exact inside
  | .expression mark e => by
    simp only [hoist, tally_nil, Nat.zero_add, stmt, Stmt.ids]
    exact tally_append_le (tally_expr_le scope .none e)
      (tally_le_of_roles [.answer .returns] rfl (by decide))
  | .var decl => by
    have inside : tally node role (varDecl scope decl) ≤ _ := tally_varDecl_le scope decl
    simp only [hoist, tally_nil, Nat.zero_add, stmt, Stmt.ids]
    exact inside
  | .function decl => by
    have inside := tally_function_le scope next decl
    simp only [hoist, stmt, tally_append, tally_declare, tally_returns, Stmt.ids]
    rcases role with (_ | _ | _ | _) | _ | _ <;> simp at inside ⊢ <;> omega
  | .struct decl => by
    have inside : tally node role (Walk.fields scope next decl.name decl.fields) ≤ _ :=
      tally_fields_le scope next decl.name decl.fields
    simp only [hoist, stmt, struct, tally_append, tally_declare, tally_setMembers, Stmt.ids,
      StructDecl.ids, List.count_append]
    rw [tally_cons, tally_returns, tally_openScope]
    rcases role with (_ | _ | _ | _) | _ | _ <;> simp <;> omega
  | .box decl => by
    have inside := tally_box_le scope next decl
    simp only [hoist, stmt, tally_declare, Stmt.ids]
    omega
  | .ifElse mark condition thenBody none => by
    have first : tally node role (expr scope .none condition) ≤ _ :=
      tally_expr_le scope .none condition
    have second := tally_stmt_le (bodyScope scope next thenBody)
      (next + opened (openBody scope next thenBody)) next enclosing thenBody
    have last : tally node role [.rule (.branchesReturn mark thenBody.id none)] ≤
        [mark.id].count node := tally_le_of_roles [.answer .returns] rfl (by decide)
    have unused : tally node role [.rule (.condition .if condition)] = 0 := rfl
    simp only [hoist, tally_nil, stmt, tally_append, tally_openBody, Stmt.ids, List.count_append]
    omega
  | .ifElse mark condition thenBody (some elseBody) => by
    have first : tally node role (expr scope .none condition) ≤ _ :=
      tally_expr_le scope .none condition
    have second := tally_stmt_le (bodyScope scope next thenBody)
      (next + opened (openBody scope next thenBody)) next enclosing thenBody
    generalize middle : next + opened (openBody scope next thenBody ++
      stmt (bodyScope scope next thenBody) (next + opened (openBody scope next thenBody))
        enclosing thenBody) = later
    have third := tally_stmt_le (bodyScope scope later elseBody)
      (later + opened (openBody scope later elseBody)) later enclosing elseBody
    have last : tally node role [.rule (.branchesReturn mark thenBody.id (some elseBody.id))] ≤
        [mark.id].count node := tally_le_of_roles [.answer .returns] rfl (by decide)
    have unused : tally node role [.rule (.condition .if condition)] = 0 := rfl
    simp only [hoist, stmt, middle]
    simp only [tally_nil, tally_append, tally_openBody, Stmt.ids, List.count_append]
    omega
  | .while mark condition body => by
    have first : tally node role (expr scope .none condition) ≤ _ :=
      tally_expr_le scope .none condition
    have second := tally_stmt_le (bodyScope scope next body)
      (next + opened (openBody scope next body)) next enclosing body
    have last : tally node role [.returns mark false] ≤ [mark.id].count node :=
      tally_le_of_roles [.answer .returns] rfl (by decide)
    have unused : tally node role [.rule (.condition .while condition)] = 0 := rfl
    simp only [hoist, tally_nil, stmt, tally_append, tally_openBody, Stmt.ids, List.count_append]
    omega
  | .return mark value => by
    have own : ∀ rest : List Step, tally node role rest = 0 →
        tally node role (.returns mark true :: rest) ≤ [mark.id].count node := by
      intro rest unused
      rw [tally_cons, unused, Nat.add_zero]
      exact tally_le_of_roles [.answer .returns] rfl (by decide)
    have unused : tally node role (match enclosing with
        | some enclosing => [.rule (.returned mark value enclosing)]
        | none => []) = 0 := by
      cases enclosing <;> rfl
    simp only [hoist, tally_nil, Nat.zero_add, stmt]
    cases value with
    | none => exact own _ unused
    | some value => exact tally_append_le (tally_expr_le scope _ value) (own _ unused)

theorem tally_block_le (scope next : ScopeId) (enclosing : Option FunctionDecl) : ∀ b : Block,
    tally node role (block scope next enclosing b) ≤ b.ids.count node
  | ⟨mark, body⟩ => by
    have inside := tally_stmts_le next (next + 1) next enclosing body
    have last : tally node role [.rule (.blockReturns mark (body.getLast?.map Stmt.id))] ≤
        [mark.id].count node := tally_le_of_roles [.answer .returns] rfl (by decide)
    rw [block, tally_cons, tally_openScope, tally_append, tally_append, Block.ids,
      List.count_append]
    omega

theorem tally_stmts_le (scope next home : ScopeId) (enclosing : Option FunctionDecl) :
    ∀ body : List Stmt,
    tally node role (hoist home body) + tally node role (stmts scope next enclosing body) ≤
      (Stmt.idsOfAll body).count node
  | [] => Nat.le_refl _
  | s :: rest => by
    have first := tally_stmt_le scope next home enclosing s
    have others := tally_stmts_le scope
      (next + opened (stmt scope next enclosing s)) home enclosing rest
    simp only [stmts, tally_append, tally_hoist_cons home s rest, Stmt.idsOfAll,
      List.count_append]
    omega

/-- A function uses its own node only to answer for its signature. -/
theorem tally_function_le (scope next : ScopeId) : ∀ decl : FunctionDecl,
    tally node role (function scope next decl) +
        (if role ∈ [.answer .declType] then 0 else [decl.mark.id].count node) ≤
      decl.ids.count node
  | ⟨mark, name, params, none, body⟩ => by
    have names : tally node role (parameterTypes scope params) +
        tally node role (parameters next params) ≤ _ := tally_parameters_le scope next params
    have inside := tally_block_le next (next + 1) (some ⟨mark, name, params, none, body⟩) body
    have signature : tally node role [.rule (.signature ⟨mark, name, params, none, body⟩)] =
        if role ∈ [.answer .declType] then [mark.id].count node else 0 :=
      tally_of_roles rfl (by decide)
    simp only [function, tally_append, FunctionDecl.ids, List.count_append, Option.map,
      Option.getD]
    rw [tally_cons, tally_openScope, tally_append, tally_cons (.rule (.signature _)), tally_append,
      signature, tally_nil, List.count_nil]
    split <;> omega
  | ⟨mark, name, params, some type, body⟩ => by
    have names : tally node role (parameterTypes scope params) +
        tally node role (parameters next params) ≤ _ := tally_parameters_le scope next params
    have inside := tally_block_le next (next + 1) (some ⟨mark, name, params, some type, body⟩) body
    have given : tally node role (typeExpr scope type) ≤ _ := tally_typeExpr_le scope type
    have signature : tally node role [.rule (.signature ⟨mark, name, params, some type, body⟩)] =
        if role ∈ [.answer .declType] then [mark.id].count node else 0 :=
      tally_of_roles rfl (by decide)
    have unused : tally node role
        [.rule (.returnsAlways ⟨mark, name, params, some type, body⟩ type.id)] = 0 := rfl
    simp only [function, tally_append, FunctionDecl.ids, List.count_append, Option.map,
      Option.getD]
    rw [tally_cons, tally_openScope, tally_append, tally_cons (.rule (.signature _)), tally_append,
      signature]
    split <;> omega

/-- A box does not declare itself. -/
theorem tally_box_le (scope next : ScopeId) : ∀ decl : BoxDecl,
    (if role ∈ [.declaration] then [decl.mark.id].count node else 0) +
        tally node role (box scope next decl) ≤ decl.ids.count node
  | ⟨mark, name, members⟩ => by
    have inside := tally_members_le scope next (next + 1) name members
    simp only [box, tally_append, BoxDecl.ids, List.count_append, tally_setMembers]
    rw [tally_cons, tally_returns, tally_openScope]
    rcases role with (_ | _ | _ | _) | _ | _ <;> simp at inside ⊢ <;> omega

theorem tally_members_le (scope inner next : ScopeId) (owner : String) : ∀ members : List Member,
    tally node role (declareMembers inner members) +
        tally node role (boxMembers scope inner next owner members) ≤
      (Member.idsOfAll members).count node
  | [] => Nat.le_refl _
  | .attr decl :: rest => by
    have others := tally_members_le scope inner next owner rest
    have type : tally node role (typeExpr scope decl.type) ≤ _ := tally_typeExpr_le scope decl.type
    have own : tally node role [.declare inner decl.name .attr decl.mark 0,
        annotated decl s!"type of attribute `{owner}#{decl.name}`"] ≤ [decl.mark.id].count node :=
      tally_le_of_roles [.declaration, .answer .declType] rfl (by decide)
    rw [tally_cons] at own
    simp only [declareMembers, boxMembers, tally_append, Member.idsOfAll, TypedName.ids,
      List.count_append]
    rw [tally_cons]
    omega
  | .meth decl :: rest => by
    have first := tally_function_le inner next decl
    have others := tally_members_le scope inner
      (next + opened (function inner next decl)) owner rest
    simp only [declareMembers, boxMembers, tally_append, Member.idsOfAll, List.count_append]
    rw [tally_cons, tally_declare]
    rcases role with (_ | _ | _ | _) | _ | _ <;> simp at first ⊢ <;> omega

end

/-- The walk over a program uses each of its nodes at most once in each role. -/
theorem tally_program_le (body : List Stmt) :
    tally node role (program body) ≤ (Stmt.idsOfAll body).count node := by
  have inside : tally node role (hoist 1 body) + tally node role (stmts 1 2 none body) ≤ _ :=
    tally_stmts_le 1 2 1 none body
  rw [program, tally_cons, tally_openScope, tally_append]
  omega

end Walk

/-! ## Nodes with identities of their own -/

namespace Step

/-- Steps that use each node at most once in each role. -/
def Distinct (steps : List Step) : Prop := (steps.flatMap uses).Nodup

variable {steps : List Step}

/-- Two steps with a use in common are the same. -/
theorem Distinct.eq_of_use (distinct : Distinct steps) {first second : Step}
    (here : first ∈ steps) (there : second ∈ steps) {use : NodeId × Role}
    (left : use ∈ first.uses) (right : use ∈ second.uses) : first = second := by
  by_contra different
  have apart : steps.Pairwise (Function.onFun List.Disjoint uses) :=
    (List.nodup_flatMap.mp distinct).2
  have : Std.Symm (Function.onFun List.Disjoint uses) :=
    ⟨fun _ _ disjoint _ there here => disjoint here there⟩
  exact apart.forall here there different left right

/-- The walk asks for the type of each expression that it comes by. -/
theorem type_mem_answers (scope : ScopeId) (expectation : Expectation) (e : Expr) :
    ⟨e.id, .type⟩ ∈ (Step.expr scope expectation e).answers := by
  cases e with
  | symbol mark name => exact List.mem_cons_of_mem _ List.mem_cons_self
  | _ => exact List.mem_cons_self

/-- An expression is come by in one scope. -/
theorem Distinct.scope_eq (distinct : Distinct steps) {scope home : ScopeId}
    {expectation other : Expectation} {e : Expr} (here : .expr scope expectation e ∈ steps)
    (there : .expr home other e ∈ steps) : scope = home := by
  have equal := distinct.eq_of_use here there
    (List.mem_append_left _ (List.mem_map.mpr ⟨_, type_mem_answers scope expectation e, rfl⟩))
    (List.mem_append_left _ (List.mem_map.mpr ⟨_, type_mem_answers home other e, rfl⟩))
  cases equal
  rfl

theorem mem_uses_of_answers {step : Step} {key : FactKey} (answered : key ∈ step.answers) :
    (key.node, .answer key.kind) ∈ step.uses :=
  List.mem_append_left _ (List.mem_map.mpr ⟨key, answered, rfl⟩)

/-- No question is answered twice. -/
theorem Distinct.nodup_answers (distinct : Distinct steps) : (steps.flatMap answers).Nodup := by
  have sublist : ((steps.flatMap answers).map fun key => (key.node, Role.answer key.kind)).Sublist
      (steps.flatMap uses) := by
    rw [List.map_flatMap]
    exact List.Sublist.flatMap_right steps fun step _ => List.sublist_append_left _ _
  exact List.Nodup.of_map _ (List.Nodup.sublist sublist distinct)

theorem Distinct.nodup_produces (distinct : Distinct steps) :
    ((steps.flatMap rules).flatMap Rule.produces).Nodup := by
  rw [List.flatMap_assoc]
  exact distinct.nodup_answers.sublist
    (List.Sublist.flatMap_right steps fun step _ => List.sublist_append_right _ _)

/-- What is known at once is not answered by a rule too. -/
theorem Distinct.known_not_produced (distinct : Distinct steps) {key : FactKey}
    (produced : key ∈ (steps.flatMap rules).flatMap Rule.produces) :
    key ∉ (steps.flatMap facts).map (·.1) := by
  intro known
  rw [List.flatMap_assoc, List.mem_flatMap] at produced
  rw [List.map_flatMap, List.mem_flatMap] at known
  obtain ⟨first, here, produced⟩ := produced
  obtain ⟨second, there, known⟩ := known
  have same : second = first := distinct.eq_of_use there here
    (mem_uses_of_answers (List.mem_append_left _ known))
    (mem_uses_of_answers (List.mem_append_right _ produced))
  subst same
  have apart := (List.nodup_flatMap.mp distinct.nodup_answers).1 second there
  exact (List.nodup_append.mp apart).2.2 key known key produced rfl

end Step

theorem Walk.distinct_program {body : List Stmt} (nodup : (Stmt.idsOfAll body).Nodup) :
    Step.Distinct (program body) := by
  rw [Step.Distinct, List.nodup_iff_count_le_one]
  intro use
  exact Nat.le_trans (tally_program_le body) (List.nodup_iff_count_le_one.mp nodup use.1)

end BoxScript
