import BoxScript.Proofs.Syntax.Nodes
import BoxScript.Proofs.Walking.Scopes

/-!
# The site of each step

Every step of the walk over a program is there for some construct, and other steps of the walk are
there for the parts of the same construct. `Walk.Site` says so, with one constructor for each way in
which a step comes about: a rule comes with the walks over what it asks about, and a declaration
with the rule that answers the type of its node. The site of each step is found in one induction
over the tree (`Walk.sited_program`).
-/

set_option autoImplicit false

namespace BoxScript

/-- Whether a declaration is that of a variable or parameter. -/
def DeclKind.isVariable : DeclKind → Bool
  | .var | .param => true
  | _ => false

namespace Walk

open Step

/-! ## Parts that are gone through -/

/-- An annotation that the walk goes through. -/
def TypeWalked (whole : List Step) (type : TypeExpr) : Prop :=
  ∃ scope, typeExpr scope type ⊆ whole

/-- An expression that the walk goes through, expecting nothing or the type of an annotation. -/
structure ExprWalked (whole : List Step) (nodes : List Node) (scope : ScopeId)
    (expectation : Expectation) (e : Expr) : Prop where
  walked : expr scope expectation e ⊆ whole
  inside : e.nodes ⊆ nodes
  expected : expectation = .none ∨ ∃ type, TypeWalked whole type ∧ expectation = .type type.id

/-- A scope that the walk opens and whose names become visible one after another. -/
def Sequential (whole : List Step) (scope : ScopeId) : Prop :=
  ∃ kind parent, .openScope scope kind parent ∈ whole ∧ kind.isSequential = true

/-- A function whose annotations the walk goes through. -/
structure SignatureWalked (whole : List Step) (decl : FunctionDecl) : Prop where
  signature : .rule (.signature decl) ∈ whole
  parameters : ∀ parameter ∈ decl.parameters, TypeWalked whole parameter.type
  result : ∀ type, decl.result = some type → TypeWalked whole type

/-- A variable without an annotation that the walk goes through. -/
structure InferredWalked (whole : List Step) (nodes : List Node) (scope : ScopeId) (mark : Mark)
    (name : String) (value : Expr) : Prop where
  home : Sequential whole scope
  walked : ExprWalked whole nodes scope .none value
  rule : .rule (.inferred mark name value.id) ∈ whole
  node : .stmt (.var ⟨mark, name, .inferred value⟩) ∈ nodes

/-- A statement that the walk goes through. -/
def StmtWalked (whole : List Step) (s : Stmt) : Prop :=
  ∃ scope next enclosing, stmt scope next enclosing s ⊆ whole

/-- The way in which a step of the walk comes about. -/
inductive Site (whole : List Step) (nodes : List Node) : Step → Prop
  | openScope (scope : ScopeId) (kind : ScopeKind) (parent : ScopeId) :
    Site whole nodes (.openScope scope kind parent)
  | returns (mark : Mark) (value : Bool) : Site whole nodes (.returns mark value)
  | members {owner : NodeId} {scope parent : ScopeId} {kind : ScopeKind}
    (opened : .openScope scope kind parent ∈ whole) (unordered : kind.isSequential = false) :
    Site whole nodes (.setMembers owner scope)
  | typeExpr {scope : ScopeId} {root : TypeExpr} {step : Step}
    (walked : Walk.typeExpr scope root ⊆ whole) (member : step ∈ Walk.typeExpr scope root) :
    Site whole nodes step
  | expr {scope : ScopeId} {expectation : Expectation} {root : Expr} {step : Step}
    (walked : ExprWalked whole nodes scope expectation root)
    (member : step ∈ Walk.expr scope expectation root) : Site whole nodes step
  | declareType {scope : ScopeId} {name : String} {kind : DeclKind} {mark : Mark} {position : Nat}
    (home : Sequential whole scope) (isType : kind.isType = true) :
    Site whole nodes (.declare scope name kind mark position)
  | declareAnnotated {scope : ScopeId} {name : String} {kind : DeclKind} {mark : Mark}
    {position : Nat} {type : TypeExpr} {what : String} {span : Span}
    (home : kind.isVariable = true → Sequential whole scope)
    (walked : TypeWalked whole type) (rule : .rule (.annotated mark.id type.id what span) ∈ whole) :
    Site whole nodes (.declare scope name kind mark position)
  | declareFunction {scope : ScopeId} {name : String} {kind : DeclKind} {position : Nat}
    {decl : FunctionDecl} (other : kind.isVariable = false)
    (walked : SignatureWalked whole decl) :
    Site whole nodes (.declare scope name kind decl.mark position)
  | declareInferred {scope : ScopeId} {name : String} {mark : Mark} {value : Expr}
    (walked : InferredWalked whole nodes scope mark name value) :
    Site whole nodes (.declare scope name .var mark mark.span.stop.offset)
  | annotated {node : NodeId} {type : TypeExpr} {what : String} {span : Span}
    (walked : TypeWalked whole type) :
    Site whole nodes (.rule (.annotated node type.id what span))
  | initializer {scope : ScopeId} {name : String} {type : TypeExpr} {value : Expr}
    {expectation : Expectation} (typeWalked : TypeWalked whole type)
    (walked : ExprWalked whole nodes scope expectation value) :
    Site whole nodes (.rule (.initializer name type.id value))
  | inferred {scope : ScopeId} {mark : Mark} {name : String} {value : Expr}
    (walked : ExprWalked whole nodes scope .none value) :
    Site whole nodes (.rule (.inferred mark name value.id))
  | signature {decl : FunctionDecl} (walked : SignatureWalked whole decl) :
    Site whole nodes (.rule (.signature decl))
  | returnsAlways {decl : FunctionDecl} {type : TypeExpr} (typeWalked : TypeWalked whole type)
    (body : StmtWalked whole (.block decl.body)) :
    Site whole nodes (.rule (.returnsAlways decl type.id))
  | condition {scope : ScopeId} {statement : Conditional} {e : Expr}
    (walked : ExprWalked whole nodes scope .none e) :
    Site whole nodes (.rule (.condition statement e))
  | blockReturns {mark : Mark} {last : Option Stmt}
    (walked : ∀ s, last = some s → StmtWalked whole s) :
    Site whole nodes (.rule (.blockReturns mark (last.map Stmt.id)))
  | branchesReturn {mark : Mark} {thenBody : Stmt} {elseBody : Option Stmt}
    (thenWalked : StmtWalked whole thenBody)
    (elseWalked : ∀ s, elseBody = some s → StmtWalked whole s) :
    Site whole nodes (.rule (.branchesReturn mark thenBody.id (elseBody.map Stmt.id)))
  | returned {mark : Mark} {value : Option Expr} {enclosing : FunctionDecl}
    (result : ∀ type, enclosing.result = some type → TypeWalked whole type)
    (walked : ∀ e, value = some e →
      ∃ scope expectation, ExprWalked whole nodes scope expectation e) :
    Site whole nodes (.rule (.returned mark value enclosing))

/-- Steps that all have a site. -/
def Sited (whole : List Step) (nodes : List Node) (steps : List Step) : Prop :=
  ∀ step ∈ steps, Site whole nodes step

section

variable {whole : List Step} {nodes : List Node} {scope next : ScopeId}
  {enclosing : Option FunctionDecl}

theorem sited_append {first second : List Step} :
    Sited whole nodes (first ++ second) ↔ Sited whole nodes first ∧ Sited whole nodes second :=
  List.forall_mem_append

theorem sited_cons {step : Step} {rest : List Step} :
    Sited whole nodes (step :: rest) ↔ Site whole nodes step ∧ Sited whole nodes rest :=
  List.forall_mem_cons

theorem sited_nil : Sited whole nodes [] := by simp [Sited]

theorem sited_single {step : Step} : Sited whole nodes [step] ↔ Site whole nodes step := by
  simp [Sited]

/-! ## Parts of declarations -/

theorem sited_typeExpr {type : TypeExpr} (walked : typeExpr scope type ⊆ whole) :
    Sited whole nodes (typeExpr scope type) := by
  intro step member
  exact .typeExpr walked member

theorem sited_expr {expectation : Expectation} {e : Expr}
    (walked : ExprWalked whole nodes scope expectation e) :
    Sited whole nodes (expr scope expectation e) := by
  intro step member
  exact .expr walked member

theorem exprWalked_none {e : Expr} (walked : expr scope .none e ⊆ whole)
    (inside : e.nodes ⊆ nodes) : ExprWalked whole nodes scope .none e :=
  ⟨walked, inside, .inl rfl⟩

theorem typeWalked_of_parameterTypes {names : List TypedName}
    (walked : parameterTypes scope names ⊆ whole) :
    ∀ name ∈ names, TypeWalked whole name.type := by
  induction names with
  | nil => simp
  | cons first rest ih =>
    rw [parameterTypes, List.append_subset] at walked
    exact List.forall_mem_cons.mpr ⟨⟨scope, walked.1⟩, ih walked.2⟩

theorem signatureWalked_of_subset {decl : FunctionDecl}
    (walked : function scope next decl ⊆ whole) : SignatureWalked whole decl := by
  obtain ⟨mark, name, parameters, result, body⟩ := decl
  simp only [function, List.append_subset, List.cons_subset] at walked
  obtain ⟨⟨types, resultWalked⟩, _, _, signature, _⟩ := walked
  refine ⟨signature, typeWalked_of_parameterTypes types, ?_⟩
  intro type is
  cases is
  exact ⟨scope, resultWalked⟩

theorem stmtWalked_of_mem {body : List Stmt} (walked : stmts scope next enclosing body ⊆ whole)
    {s : Stmt} (member : s ∈ body) : ∃ later, stmt scope later enclosing s ⊆ whole := by
  induction body generalizing next with
  | nil => cases member
  | cons first rest ih =>
    simp only [stmts, List.append_subset] at walked
    rcases List.mem_cons.mp member with rfl | member
    · exact ⟨next, walked.1⟩
    · exact ih walked.2 member

/-- What is declared throughout a block has its site in the walk over the block. -/
theorem sited_hoist {body : List Stmt} (home : Sequential whole scope)
    (walked : ∀ s ∈ body, StmtWalked whole s) : Sited whole nodes (hoist scope body) := by
  induction body with
  | nil => exact sited_nil
  | cons s rest ih =>
    have others := ih fun other member => walked other (List.mem_cons_of_mem s member)
    cases s with
    | function decl =>
      obtain ⟨_, next, enclosing, here⟩ := walked _ List.mem_cons_self
      rw [stmt, List.append_subset] at here
      exact sited_cons.mpr ⟨.declareFunction rfl (signatureWalked_of_subset here.1), others⟩
    | struct decl => exact sited_cons.mpr ⟨.declareType home rfl, others⟩
    | box decl => exact sited_cons.mpr ⟨.declareType home rfl, others⟩
    | _ => exact others

theorem sited_varDecl {decl : VariableDecl} (home : Sequential whole scope)
    (walked : varDecl scope decl ⊆ whole) (inside : (Stmt.var decl).nodes ⊆ nodes) :
    Sited whole nodes (varDecl scope decl) := by
  obtain ⟨mark, name, form⟩ := decl
  cases form with
  | inferred value =>
    simp only [varDecl, List.append_subset, List.cons_subset, Stmt.nodes, VariableForm.nodes]
      at walked inside
    obtain ⟨⟨valueSteps, _⟩, rule, _⟩ := walked
    have valueWalked := exprWalked_none valueSteps inside.1
    simp only [varDecl, sited_append, sited_cons, sited_nil, and_true]
    refine ⟨⟨sited_expr valueWalked, ?_, .returns _ _⟩, .inferred valueWalked⟩
    exact .declareInferred ⟨home, valueWalked, rule, inside.2.1⟩
  | typed type value =>
    cases value with
    | none =>
      simp only [varDecl, List.append_subset, List.cons_subset] at walked
      obtain ⟨⟨types, _⟩, rule, _⟩ := walked
      simp only [varDecl, sited_append, sited_cons, sited_nil, and_true]
      exact ⟨⟨sited_typeExpr types, .declareAnnotated (fun _ => home) ⟨scope, types⟩ rule,
        .returns _ _⟩,
        .annotated ⟨scope, types⟩⟩
    | some value =>
      simp only [varDecl, List.append_subset, List.cons_subset, Stmt.nodes, VariableForm.nodes]
        at walked inside
      obtain ⟨⟨⟨types, valueSteps⟩, _⟩, rule, _⟩ := walked
      have valueWalked : ExprWalked whole nodes scope (.type type.id) value :=
        ⟨valueSteps, inside.1.2, .inr ⟨type, ⟨scope, types⟩, rfl⟩⟩
      simp only [varDecl, sited_append, sited_cons, sited_nil, and_true]
      exact ⟨⟨⟨sited_typeExpr types, sited_expr valueWalked⟩,
        .declareAnnotated (fun _ => home) ⟨scope, types⟩ rule, .returns _ _⟩,
        .annotated ⟨scope, types⟩, .initializer ⟨scope, types⟩ valueWalked⟩

theorem sited_fields {inner : ScopeId} {owner : String} {names : List TypedName}
    (walked : fields scope inner owner names ⊆ whole) :
    Sited whole nodes (fields scope inner owner names) := by
  induction names with
  | nil => exact sited_nil
  | cons name rest ih =>
    simp only [fields, List.append_subset, List.cons_subset] at walked
    obtain ⟨⟨types, _, rule, _⟩, others⟩ := walked
    simp only [fields, sited_append, sited_cons, sited_nil, and_true]
    exact ⟨⟨sited_typeExpr types, .declareAnnotated (by rintro ⟨⟩) ⟨scope, types⟩ rule,
      .annotated ⟨scope, types⟩⟩, ih others⟩

theorem sited_parameterTypes {names : List TypedName}
    (walked : parameterTypes scope names ⊆ whole) :
    Sited whole nodes (parameterTypes scope names) := by
  induction names with
  | nil => exact sited_nil
  | cons name rest ih =>
    rw [parameterTypes, List.append_subset] at walked
    exact sited_append.mpr ⟨sited_typeExpr walked.1, ih walked.2⟩

theorem sited_parameters {names : List TypedName} (home : Sequential whole scope)
    (types : ∀ name ∈ names, TypeWalked whole name.type)
    (walked : parameters scope names ⊆ whole) : Sited whole nodes (parameters scope names) := by
  induction names with
  | nil => exact sited_nil
  | cons name rest ih =>
    simp only [parameters, List.append_subset, List.cons_subset] at walked
    obtain ⟨⟨_, rule, _⟩, others⟩ := walked
    obtain ⟨type, restTypes⟩ := List.forall_mem_cons.mp types
    simp only [parameters, sited_append, sited_cons, sited_nil, and_true]
    exact ⟨⟨.declareAnnotated (fun _ => home) type rule, .annotated type⟩, ih restTypes others⟩

theorem sited_declareMembers {inner home : ScopeId} {owner : String} {members : List Member}
    (walked : boxMembers scope inner home owner members ⊆ whole) :
    Sited whole nodes (declareMembers inner members) := by
  induction members generalizing home with
  | nil => exact sited_nil
  | cons member rest ih =>
    cases member with
    | attr decl =>
      simp only [boxMembers, List.append_subset, List.cons_subset] at walked
      obtain ⟨⟨types, rule, _⟩, others⟩ := walked
      exact sited_cons.mpr ⟨.declareAnnotated (by rintro ⟨⟩) ⟨scope, types⟩ rule, ih others⟩
    | meth decl =>
      simp only [boxMembers, List.append_subset] at walked
      exact sited_cons.mpr
        ⟨.declareFunction rfl (signatureWalked_of_subset walked.1), ih walked.2⟩

/-! ## Statements -/

/-- The annotated result of the function around statements is gone through. -/
def Enclosed (whole : List Step) (enclosing : Option FunctionDecl) : Prop :=
  ∀ decl type, enclosing = some decl → decl.result = some type → TypeWalked whole type

theorem enclosed_none : Enclosed whole none := by
  intro decl type is
  cases is

theorem SignatureWalked.enclosed {decl : FunctionDecl} (walked : SignatureWalked whole decl) :
    Enclosed whole (some decl) := by
  intro other type is
  cases is
  exact walked.result type

theorem expected_of_enclosed (around : Enclosed whole enclosing) :
    returnExpectation enclosing = .none ∨
      ∃ type, TypeWalked whole type ∧ returnExpectation enclosing = .type type.id := by
  cases enclosing with
  | none => exact .inl rfl
  | some decl =>
    cases is : decl.result with
    | none =>
      left
      simp [returnExpectation, is]
    | some type =>
      right
      refine ⟨type, around decl type rfl is, ?_⟩
      simp [returnExpectation, is]

theorem stmtWalked_of_branch {s : Stmt} (walked : branch scope next enclosing s ⊆ whole) :
    StmtWalked whole s := by
  rw [branch, List.append_subset] at walked
  exact ⟨_, _, enclosing, walked.2⟩

/-- The statements of a branch are in the scope around it, or in one of their own. -/
theorem sequential_bodyScope (home : Sequential whole scope) {s : Stmt}
    (walked : branch scope next enclosing s ⊆ whole) :
    Sequential whole (bodyScope scope next s) := by
  rw [branch, List.append_subset] at walked
  cases s with
  | block b => exact home
  | _ => exact ⟨.block, scope, walked.1 List.mem_cons_self, rfl⟩

theorem sited_openBody {s : Stmt} (walked : branch scope next enclosing s ⊆ whole) :
    Sited whole nodes (openBody scope next s) := by
  have inside : ∀ other ∈ [s], StmtWalked whole other := by
    intro other member
    rw [List.mem_singleton.mp member]
    exact stmtWalked_of_branch walked
  rw [branch, List.append_subset] at walked
  cases s with
  | block b => exact sited_nil
  | _ =>
    have home : Sequential whole next := ⟨.block, scope, walked.1 List.mem_cons_self, rfl⟩
    exact sited_cons.mpr ⟨.openScope _ _ _, sited_hoist home inside⟩

theorem sited_test {statement : Conditional} {e : Expr}
    (walked : test scope statement e ⊆ whole) (inside : e.nodes ⊆ nodes) :
    Sited whole nodes (test scope statement e) := by
  rw [test, List.append_subset] at walked
  have tested := exprWalked_none walked.1 inside
  exact sited_append.mpr ⟨sited_expr tested, sited_single.mpr (.condition tested)⟩

/-- The body of a branch or loop, in its scope. -/
theorem sited_branch_of {s : Stmt}
    (inside : ∀ {scope next : ScopeId}, Sequential whole scope →
      stmt scope next enclosing s ⊆ whole → Sited whole nodes (stmt scope next enclosing s))
    (home : Sequential whole scope) (walked : branch scope next enclosing s ⊆ whole) :
    Sited whole nodes (branch scope next enclosing s) := by
  have steps := walked
  rw [branch, List.append_subset] at steps
  exact sited_append.mpr ⟨sited_openBody walked,
    inside (sequential_bodyScope home walked) steps.2⟩

mutual

theorem sited_stmt (scope next : ScopeId) (enclosing : Option FunctionDecl)
    (home : Sequential whole scope) (around : Enclosed whole enclosing) : ∀ s : Stmt,
    stmt scope next enclosing s ⊆ whole → s.nodes ⊆ nodes →
    Sited whole nodes (stmt scope next enclosing s)
  | .block b, walked, inside => sited_block scope next enclosing around b walked inside
  | .expression mark e, walked, inside => by
    simp only [stmt, Stmt.nodes, List.append_subset] at walked inside
    simp only [stmt, sited_append, sited_single]
    exact ⟨sited_expr (exprWalked_none walked.1 inside.1), .returns _ _⟩
  | .var decl, walked, inside => sited_varDecl home walked inside
  | .function decl, walked, inside => by
    simp only [stmt, Stmt.nodes, List.append_subset] at walked inside
    simp only [stmt, sited_append, sited_single]
    exact ⟨sited_function scope next decl walked.1 inside.1, .returns _ _⟩
  | .struct decl, walked, inside => by
    simp only [stmt, struct, List.append_subset, List.cons_subset] at walked
    simp only [stmt, struct, sited_append, sited_cons, sited_nil, and_true]
    obtain ⟨⟨⟨_, opened, _⟩, members⟩, _⟩ := walked
    exact ⟨⟨⟨.returns _ _, .openScope _ _ _⟩, sited_fields members⟩, .members opened rfl⟩
  | .box decl, walked, inside => by
    simp only [stmt, Stmt.nodes, List.append_subset] at walked inside
    exact sited_box scope next decl walked inside.1
  | .ifElse mark e thenBody none, walked, inside => by
    simp only [stmt_ifThen, Stmt.nodes, List.append_subset] at walked inside
    obtain ⟨⟨tested, first⟩, _⟩ := walked
    have returns : Site whole nodes (.rule (.branchesReturn mark thenBody.id (none.map Stmt.id))) :=
      .branchesReturn (stmtWalked_of_branch first) (by simp)
    simp only [stmt_ifThen, sited_append, sited_single]
    exact ⟨⟨sited_test tested inside.1.1,
      sited_branch_of (fun home steps =>
        sited_stmt _ _ enclosing home around thenBody steps inside.1.2) home first⟩, returns⟩
  | .ifElse mark e thenBody (some elseBody), walked, inside => by
    simp only [stmt_ifElse, Stmt.nodes, List.append_subset] at walked inside
    obtain ⟨⟨tested, first, second⟩, _⟩ := walked
    have returns : Site whole nodes
        (.rule (.branchesReturn mark thenBody.id ((some elseBody).map Stmt.id))) := by
      refine .branchesReturn (stmtWalked_of_branch first) ?_
      intro s is
      cases is
      exact stmtWalked_of_branch second
    simp only [stmt_ifElse, sited_append, sited_single]
    exact ⟨⟨sited_test tested inside.1.1.1,
      sited_branch_of (fun home steps =>
        sited_stmt _ _ enclosing home around thenBody steps inside.1.1.2) home first,
      sited_branch_of (fun home steps =>
        sited_stmt _ _ enclosing home around elseBody steps inside.1.2) home second⟩, returns⟩
  | .while mark e body, walked, inside => by
    simp only [stmt_while, Stmt.nodes, List.append_subset] at walked inside
    obtain ⟨⟨tested, first⟩, _⟩ := walked
    simp only [stmt_while, sited_append, sited_single]
    exact ⟨⟨sited_test tested inside.1.1,
      sited_branch_of (fun home steps =>
        sited_stmt _ _ enclosing home around body steps inside.1.2) home first⟩, .returns _ _⟩
  | .return mark value, walked, inside => by
    have given : ∀ e, value = some e →
        ExprWalked whole nodes scope (returnExpectation enclosing) e := by
      intro e is
      subst is
      simp only [stmt, Stmt.nodes, List.append_subset] at walked inside
      exact ⟨walked.1, inside.1, expected_of_enclosed around⟩
    simp only [stmt, sited_append, sited_cons]
    refine ⟨?_, .returns _ _, ?_⟩
    · cases value with
      | none => exact sited_nil
      | some e => exact sited_expr (given e rfl)
    · cases enclosing with
      | none => exact sited_nil
      | some decl =>
        apply sited_single.mpr
        exact .returned (fun type is => around decl type rfl is) fun e is => ⟨scope, _, given e is⟩

theorem sited_block (scope next : ScopeId) (enclosing : Option FunctionDecl)
    (around : Enclosed whole enclosing) : ∀ b : Block,
    block scope next enclosing b ⊆ whole → b.nodes ⊆ nodes →
    Sited whole nodes (block scope next enclosing b)
  | ⟨mark, body⟩, walked, inside => by
    simp only [block, Block.nodes, List.append_subset, List.cons_subset] at walked inside
    obtain ⟨opened, ⟨_, statements⟩, _⟩ := walked
    have walkedAll : ∀ s ∈ body, StmtWalked whole s := by
      intro s member
      obtain ⟨later, here⟩ := stmtWalked_of_mem statements member
      exact ⟨next, later, enclosing, here⟩
    simp only [block, sited_append, sited_cons, sited_nil, and_true]
    have home : Sequential whole next := ⟨.block, scope, opened, rfl⟩
    refine ⟨.openScope _ _ _, ⟨sited_hoist home walkedAll, ?_⟩, .blockReturns ?_⟩
    · exact sited_stmts next (next + 1) enclosing home around body statements inside.1
    · intro s is
      exact walkedAll s (List.mem_of_getLast? is)

theorem sited_stmts (scope next : ScopeId) (enclosing : Option FunctionDecl)
    (home : Sequential whole scope) (around : Enclosed whole enclosing) : ∀ body : List Stmt,
    stmts scope next enclosing body ⊆ whole → Stmt.nodesOfAll body ⊆ nodes →
    Sited whole nodes (stmts scope next enclosing body)
  | [], _, _ => sited_nil
  | s :: rest, walked, inside => by
    simp only [stmts, Stmt.nodesOfAll, List.append_subset] at walked inside
    exact sited_append.mpr ⟨sited_stmt scope next enclosing home around s walked.1 inside.1,
      sited_stmts scope _ enclosing home around rest walked.2 inside.2⟩

theorem sited_function (scope next : ScopeId) : ∀ decl : FunctionDecl,
    function scope next decl ⊆ whole → decl.nodes ⊆ nodes →
    Sited whole nodes (function scope next decl)
  | ⟨mark, name, params, result, body⟩, walked, inside => by
    have signature := signatureWalked_of_subset walked
    simp only [function, FunctionDecl.nodes, List.append_subset, List.cons_subset] at walked inside
    obtain ⟨⟨types, resultSteps⟩, opened, declared, _, bodySteps, _⟩ := walked
    have home : Sequential whole next := ⟨.function, scope, opened, rfl⟩
    simp only [function, sited_append, sited_cons]
    refine ⟨⟨sited_parameterTypes types, ?_⟩, .openScope _ _ _,
      sited_parameters home signature.parameters declared, .signature signature,
      sited_block next (next + 1) _ signature.enclosed body bodySteps inside.2, ?_⟩
    · cases result with
      | none => exact sited_nil
      | some type => exact sited_typeExpr resultSteps
    · cases result with
      | none => exact sited_nil
      | some type =>
        apply sited_single.mpr
        exact .returnsAlways (signature.result type rfl) ⟨_, _, _, bodySteps⟩

theorem sited_box (scope next : ScopeId) : ∀ decl : BoxDecl,
    box scope next decl ⊆ whole → decl.nodes ⊆ nodes → Sited whole nodes (box scope next decl)
  | ⟨mark, name, members⟩, walked, inside => by
    simp only [box, List.append_subset, List.cons_subset] at walked
    obtain ⟨⟨⟨⟨_, opened, _⟩, _⟩, _⟩, memberSteps⟩ := walked
    simp only [box, sited_append, sited_cons, sited_nil, and_true]
    exact ⟨⟨⟨⟨.returns _ _, .openScope _ _ _⟩, sited_declareMembers memberSteps⟩,
      .members opened rfl⟩, sited_boxMembers scope next (next + 1) name members memberSteps inside⟩

theorem sited_boxMembers (scope inner next : ScopeId) (owner : String) : ∀ members : List Member,
    boxMembers scope inner next owner members ⊆ whole → Member.nodesOfAll members ⊆ nodes →
    Sited whole nodes (boxMembers scope inner next owner members)
  | [], _, _ => sited_nil
  | .attr decl :: rest, walked, inside => by
    simp only [boxMembers, Member.nodesOfAll, List.append_subset] at walked inside
    simp only [boxMembers, sited_append, sited_single]
    exact ⟨⟨sited_typeExpr walked.1.1, .annotated ⟨scope, walked.1.1⟩⟩,
      sited_boxMembers scope inner next owner rest walked.2 inside.2⟩
  | .meth decl :: rest, walked, inside => by
    simp only [boxMembers, Member.nodesOfAll, List.append_subset] at walked inside
    exact sited_append.mpr ⟨sited_function inner next decl walked.1 inside.1.1,
      sited_boxMembers scope inner _ owner rest walked.2 inside.2⟩

end

end

/-- Every step of the walk over a program has a site. -/
theorem sited_program (body : List Stmt) :
    Sited (program body) (Stmt.nodesOfAll body) (program body) := by
  have statements : stmts 1 2 none body ⊆ program body := by
    intro step member
    exact List.mem_cons_of_mem _ (List.mem_append_right _ member)
  have home : Sequential (program body) 1 :=
    ⟨.root, SymbolTable.builtinScope, List.mem_cons_self, rfl⟩
  have walkedAll : ∀ s ∈ body, StmtWalked (program body) s := by
    intro s member
    obtain ⟨later, here⟩ := stmtWalked_of_mem statements member
    exact ⟨1, later, none, here⟩
  refine sited_cons.mpr ⟨.openScope _ _ _, sited_append.mpr ⟨sited_hoist home walkedAll, ?_⟩⟩
  exact sited_stmts 1 2 none home enclosed_none body statements (List.Subset.refl _)

/-- Variables and parameters are declared in scopes whose names become visible one after another. -/
theorem sequential_of_declare {body : List Stmt} {scope : ScopeId} {name : String}
    {kind : DeclKind} {mark : Mark} {position : Nat} (isVariable : kind.isVariable = true)
    (walked : .declare scope name kind mark position ∈ program body) :
    Sequential (program body) scope := by
  cases sited_program body _ walked with
  | declareType home _ => exact home
  | declareAnnotated home => exact home isVariable
  | declareFunction other =>
    rw [other] at isVariable
    cases isVariable
  | declareInferred inferred => exact inferred.home
  | typeExpr _ member => cases plain_typeExpr _ _ _ member
  | expr _ member => cases plain_expr _ _ _ _ member

end Walk

end BoxScript
