import BoxScript.Typing.Walk

/-!
# The scopes of the walk

The walk opens scopes in the order of their numbers and declares names in open scopes only
(`ordered_stmts` and the lemmas around it). What it declares while it goes through a statement
belongs to a scope that it opens for the statement, but for the variable that the statement itself
declares (`declared_stmt`). So a scope gets all its names from the place in the tree that it is
opened for.
-/

set_option autoImplicit false

namespace BoxScript

namespace Step

/-! ## Order -/

/-- Steps that open scopes from a number on, each inside an open one, and declare names in open
scopes, of which the builtin scope is none. -/
def Ordered (next : ScopeId) : List Step → Prop
  | [] => True
  | .openScope scope _ parent :: rest => scope = next ∧ parent < next ∧ Ordered (next + 1) rest
  | .declare scope _ _ _ _ :: rest => 0 < scope ∧ scope < next ∧ Ordered next rest
  | .setMembers _ scope :: rest => 0 < scope ∧ scope < next ∧ Ordered next rest
  | .typeExpr _ _ :: rest | .expr _ _ _ :: rest | .rule _ :: rest | .returns _ _ :: rest =>
    Ordered next rest

@[simp]
theorem opened_nil : opened [] = 0 := rfl

@[simp]
theorem opened_append (first second : List Step) :
    opened (first ++ second) = opened first + opened second :=
  List.countP_append

theorem opened_cons (step : Step) (steps : List Step) :
    opened (step :: steps) = opened [step] + opened steps :=
  opened_append [step] steps

@[simp]
theorem opened_openScope_cons (scope parent : ScopeId) (kind : ScopeKind) (steps : List Step) :
    opened (.openScope scope kind parent :: steps) = 1 + opened steps := by
  rw [opened_cons]
  rfl

@[simp]
theorem opened_rule_cons (rule : Rule) (steps : List Step) :
    opened (.rule rule :: steps) = opened steps := by
  simp [opened, isOpening]

@[simp]
theorem opened_returns_cons (mark : Mark) (value : Bool) (steps : List Step) :
    opened (.returns mark value :: steps) = opened steps := by
  simp [opened, isOpening]

@[simp]
theorem opened_declare_cons (scope : ScopeId) (name : String) (kind : DeclKind) (mark : Mark)
    (position : Nat) (steps : List Step) :
    opened (.declare scope name kind mark position :: steps) = opened steps := by
  simp [opened, isOpening]

@[simp]
theorem opened_setMembers_cons (owner : NodeId) (scope : ScopeId) (steps : List Step) :
    opened (.setMembers owner scope :: steps) = opened steps := by
  simp [opened, isOpening]

theorem ordered_append {next : ScopeId} {first second : List Step} :
    Ordered next (first ++ second) ↔
      Ordered next first ∧ Ordered (next + opened first) second := by
  induction first generalizing next with
  | nil => simp [Ordered]
  | cons step rest ih =>
    cases step with
    | openScope scope kind parent =>
      simp only [List.cons_append, Ordered, ih, and_assoc, opened_openScope_cons, Nat.add_assoc]
    | declare scope name kind mark position => simp [Ordered, ih, and_assoc, opened, isOpening]
    | setMembers owner scope => simp [Ordered, ih, and_assoc, opened, isOpening]
    | typeExpr _ _ | expr _ _ _ | rule _ | returns _ _ => simp [Ordered, ih, opened, isOpening]

theorem Ordered.mono {next later : ScopeId} {steps : List Step} (ordered : Ordered next steps)
    (none : opened steps = 0) (le : next ≤ later) : Ordered later steps := by
  induction steps with
  | nil => trivial
  | cons step rest ih =>
    cases step with
    | openScope scope kind parent => simp at none
    | declare scope name kind mark position =>
      exact ⟨ordered.1, Nat.lt_of_lt_of_le ordered.2.1 le, ih ordered.2.2 none⟩
    | setMembers owner scope =>
      exact ⟨ordered.1, Nat.lt_of_lt_of_le ordered.2.1 le, ih ordered.2.2 none⟩
    | typeExpr _ _ | expr _ _ _ | rule _ | returns _ _ => exact ih ordered none

/-! ## Declarations -/

/-- What a step declares in a scope. -/
def declaredBy (scope : ScopeId) : Step → Option Declaration
  | .declare home name kind mark position =>
    if home = scope then some ⟨name, kind, some mark.id, home, position, mark.span⟩ else none
  | _ => none

/-- What steps declare in a scope. -/
def declared (scope : ScopeId) (steps : List Step) : List Declaration :=
  steps.filterMap (declaredBy scope)

@[simp]
theorem declared_nil (scope : ScopeId) : declared scope [] = [] := rfl

@[simp]
theorem declared_append (scope : ScopeId) (first second : List Step) :
    declared scope (first ++ second) = declared scope first ++ declared scope second :=
  List.filterMap_append

theorem declared_cons (scope : ScopeId) (step : Step) (steps : List Step) :
    declared scope (step :: steps) = declared scope [step] ++ declared scope steps :=
  declared_append scope [step] steps

@[simp]
theorem declared_declare_cons (home scope : ScopeId) (name : String) (kind : DeclKind) (mark : Mark)
    (position : Nat) (steps : List Step) :
    declared home (.declare scope name kind mark position :: steps) =
      (if scope = home then [⟨name, kind, some mark.id, scope, position, mark.span⟩] else []) ++
        declared home steps := by
  rw [declared_cons]
  by_cases same : scope = home <;> simp [declared, declaredBy, same]

@[simp]
theorem declared_openScope_cons (home scope parent : ScopeId) (kind : ScopeKind)
    (steps : List Step) :
    declared home (.openScope scope kind parent :: steps) = declared home steps := rfl

@[simp]
theorem declared_setMembers_cons (home scope : ScopeId) (owner : NodeId) (steps : List Step) :
    declared home (.setMembers owner scope :: steps) = declared home steps := rfl

@[simp]
theorem declared_rule_cons (home : ScopeId) (rule : Rule) (steps : List Step) :
    declared home (.rule rule :: steps) = declared home steps := rfl

@[simp]
theorem declared_returns_cons (home : ScopeId) (mark : Mark) (value : Bool) (steps : List Step) :
    declared home (.returns mark value :: steps) = declared home steps := rfl

/-- Nothing is declared in a scope that is not open. -/
theorem Ordered.declared_eq_nil {next : ScopeId} {steps : List Step} (ordered : Ordered next steps)
    {scope : ScopeId} (closed : next + opened steps ≤ scope) : declared scope steps = [] := by
  induction steps generalizing next with
  | nil => rfl
  | cons step rest ih =>
    rw [opened_cons] at closed
    cases step with
    | openScope home kind parent =>
      obtain ⟨_, _, ordered⟩ := ordered
      change next + (1 + opened rest) ≤ scope at closed
      exact ih ordered (by rwa [Nat.add_assoc])
    | declare home name kind mark position =>
      obtain ⟨_, bound, ordered⟩ := ordered
      change next + (0 + opened rest) ≤ scope at closed
      rw [Nat.zero_add] at closed
      have apart : home ≠ scope :=
        Nat.ne_of_lt (Nat.lt_of_lt_of_le bound (Nat.le_trans (Nat.le_add_right _ _) closed))
      rw [declared_cons, ih ordered closed]
      simp [declared, declaredBy, apart]
    | setMembers owner home =>
      change next + (0 + opened rest) ≤ scope at closed
      rw [Nat.zero_add] at closed
      exact ih ordered.2.2 closed
    | typeExpr _ _ | expr _ _ _ | rule _ | returns _ _ =>
      change next + (0 + opened rest) ≤ scope at closed
      rw [Nat.zero_add] at closed
      exact ih ordered closed

/-! ## Steps that leave the scopes alone -/

/-- Whether a step neither opens a scope nor says anything about one. -/
def isPlain : Step → Bool
  | .openScope _ _ _ | .declare _ _ _ _ _ | .setMembers _ _ => false
  | .typeExpr _ _ | .expr _ _ _ | .rule _ | .returns _ _ => true

/-- Steps that leave the scopes alone. -/
def Plain (steps : List Step) : Prop := ∀ step ∈ steps, step.isPlain = true

theorem plain_nil : Plain [] := by simp [Plain]

theorem plain_append {first second : List Step} :
    Plain (first ++ second) ↔ Plain first ∧ Plain second :=
  List.forall_mem_append

theorem plain_single {step : Step} (plain : step.isPlain = true) : Plain [step] := by
  simpa [Plain] using plain

theorem Plain.opened {steps : List Step} (plain : Plain steps) : opened steps = 0 := by
  rw [Step.opened, List.countP_eq_zero]
  intro step member
  have := plain step member
  cases step <;> simp_all [isPlain, isOpening]

theorem Plain.declared {steps : List Step} (plain : Plain steps) (scope : ScopeId) :
    declared scope steps = [] := by
  rw [Step.declared, List.filterMap_eq_nil_iff]
  intro step member
  have := plain step member
  cases step <;> simp_all [isPlain, declaredBy]

theorem Plain.ordered {steps : List Step} (plain : Plain steps) (next : ScopeId) :
    Ordered next steps := by
  induction steps with
  | nil => trivial
  | cons step rest ih =>
    have here := plain step List.mem_cons_self
    have rest := ih fun other member => plain other (List.mem_cons_of_mem _ member)
    cases step <;> simp_all [isPlain, Ordered]

/-- Plain steps before and after others do not matter to their order. -/
theorem ordered_between {first middle last : List Step} {next : ScopeId} (before : Plain first)
    (ordered : Ordered next middle) (after : Plain last) :
    Ordered next (first ++ middle ++ last) := by
  refine ordered_append.mpr ⟨ordered_append.mpr ⟨before.ordered next, ?_⟩, after.ordered _⟩
  rw [before.opened, Nat.add_zero]
  exact ordered

/-- Plain steps before and after others do not matter to what these declare. -/
theorem declared_between {first middle last : List Step} (before : Plain first)
    (after : Plain last) (scope : ScopeId) :
    declared scope (first ++ middle ++ last) = declared scope middle := by
  rw [declared_append, declared_append, before.declared, after.declared, List.append_nil,
    List.nil_append]

end Step

namespace Walk

open Step

theorem plain_typeExpr (scope : ScopeId) (type : TypeExpr) : Plain (typeExpr scope type) := by
  induction type with
  | named mark name => simp [typeExpr, Plain, isPlain]
  | array mark component ih => exact plain_append.mpr ⟨ih, plain_single rfl⟩

/-- Steps that come by expressions of a scope. -/
def Expressions (scope : ScopeId) (steps : List Step) : Prop :=
  ∀ step ∈ steps, ∃ expectation e, step = .expr scope expectation e

theorem expressions_append {scope : ScopeId} {first second : List Step} :
    Expressions scope (first ++ second) ↔ Expressions scope first ∧ Expressions scope second :=
  List.forall_mem_append

theorem expressions_single {scope : ScopeId} {expectation : Expectation} {e : Expr} :
    Expressions scope [.expr scope expectation e] := by simp [Expressions]

mutual

/-- The walk over an expression comes by expressions only. -/
theorem expressions_expr (scope : ScopeId) : ∀ (expectation : Expectation) (e : Expr),
    Expressions scope (expr scope expectation e)
  | expectation, .array _ elements =>
    expressions_append.mpr ⟨expressions_exprs scope (.element expectation) elements,
      expressions_single⟩
  | expectation, .paren _ inner =>
    expressions_append.mpr ⟨expressions_expr scope expectation inner, expressions_single⟩
  | _, .unary _ _ operand =>
    expressions_append.mpr ⟨expressions_expr scope .none operand, expressions_single⟩
  | _, .binary _ _ left right =>
    expressions_append.mpr ⟨expressions_append.mpr ⟨expressions_expr scope .none left,
      expressions_expr scope .none right⟩, expressions_single⟩
  | _, .assign _ target value =>
    expressions_append.mpr ⟨expressions_append.mpr ⟨expressions_expr scope .none target,
      expressions_expr scope (.type target.id) value⟩, expressions_single⟩
  | _, .call _ callee given =>
    expressions_append.mpr ⟨expressions_append.mpr ⟨expressions_expr scope .none callee,
      expressions_arguments scope callee.id 0 given⟩, expressions_single⟩
  | _, .index _ owner place =>
    expressions_append.mpr ⟨expressions_append.mpr ⟨expressions_expr scope .none owner,
      expressions_expr scope .none place⟩, expressions_single⟩
  | _, .field _ receiver _ =>
    expressions_append.mpr ⟨expressions_expr scope .none receiver, expressions_single⟩
  | _, .member _ receiver _ =>
    expressions_append.mpr ⟨expressions_expr scope .none receiver, expressions_single⟩
  | _, .int _ _ | _, .float _ _ | _, .string _ _ | _, .bool _ _ | _, .null _ | _, .symbol _ _
  | _, .constructor _ _ | _, .create _ _ => expressions_single

theorem expressions_exprs (scope : ScopeId) : ∀ (expectation : Expectation) (es : List Expr),
    Expressions scope (exprs scope expectation es)
  | _, [] => by simp [exprs, Expressions]
  | expectation, e :: rest =>
    expressions_append.mpr ⟨expressions_expr scope expectation e,
      expressions_exprs scope expectation rest⟩

theorem expressions_arguments (scope : ScopeId) :
    ∀ (callee : NodeId) (index : Nat) (es : List Expr),
    Expressions scope (arguments scope callee index es)
  | _, _, [] => by simp [arguments, Expressions]
  | callee, index, e :: rest =>
    expressions_append.mpr ⟨expressions_expr scope (.param callee index) e,
      expressions_arguments scope callee (index + 1) rest⟩

end

theorem plain_expr (scope : ScopeId) (expectation : Expectation) (e : Expr) :
    Plain (expr scope expectation e) := by
  intro step member
  obtain ⟨_, _, rfl⟩ := expressions_expr scope expectation e step member
  rfl

theorem plain_parameterTypes (scope : ScopeId) : ∀ names : List TypedName,
    Plain (parameterTypes scope names)
  | [] => plain_nil
  | name :: rest =>
    plain_append.mpr ⟨plain_typeExpr scope name.type, plain_parameterTypes scope rest⟩

/-! ## What declarations declare -/

/-- What a statement declares throughout the statements around it. -/
def hoisted (scope : ScopeId) : Stmt → List Declaration
  | .function decl => [⟨decl.name, .function, some decl.mark.id, scope, 0, decl.mark.span⟩]
  | .struct decl => [⟨decl.name, .struct, some decl.mark.id, scope, 0, decl.mark.span⟩]
  | .box decl => [⟨decl.name, .box, some decl.mark.id, scope, 0, decl.mark.span⟩]
  | _ => []

/-- The variable that a statement declares from its end on. -/
def introduced (scope : ScopeId) : Stmt → List Declaration
  | .var decl =>
    [⟨decl.name, .var, some decl.mark.id, scope, decl.mark.span.stop.offset, decl.mark.span⟩]
  | _ => []

/-- What a field, parameter or attribute declares. -/
def named (scope : ScopeId) (kind : DeclKind) (name : TypedName) : Declaration :=
  ⟨name.name, kind, some name.mark.id, scope, 0, name.mark.span⟩

/-- What the member of a box declares. -/
def membership (scope : ScopeId) : Member → Declaration
  | .attr decl => named scope .attr decl
  | .meth decl => ⟨decl.name, .method, some decl.mark.id, scope, 0, decl.mark.span⟩

variable {scope next : ScopeId}

theorem declared_hoist (home : ScopeId) (body : List Stmt) :
    declared home (hoist scope body) =
      if scope = home then body.flatMap (hoisted scope) else [] := by
  induction body with
  | nil => simp [hoist]
  | cons s rest ih => cases s <;> by_cases same : scope = home <;> simp_all [hoist, hoisted]

@[simp]
theorem opened_hoist (body : List Stmt) : opened (hoist scope body) = 0 := by
  induction body with
  | nil => rfl
  | cons s rest ih => cases s <;> simp_all [hoist]

theorem ordered_hoist (positive : 0 < scope) (inside : scope < next) (body : List Stmt) :
    Ordered next (hoist scope body) := by
  induction body with
  | nil => trivial
  | cons s rest ih => cases s <;> simp_all [hoist, Ordered]

@[simp]
theorem opened_fields (owner : String) (names : List TypedName) :
    opened (fields scope next owner names) = 0 := by
  induction names with
  | nil => rfl
  | cons name rest ih => simp [fields, annotated, ih, (plain_typeExpr scope name.type).opened]

theorem declared_fields (owner : String) (home : ScopeId) (names : List TypedName) :
    declared home (fields scope next owner names) =
      if next = home then names.map (named next .field) else [] := by
  induction names with
  | nil => simp [fields]
  | cons name rest ih =>
    by_cases same : next = home <;>
      simp_all [fields, (plain_typeExpr scope name.type).declared, annotated, named]

theorem ordered_fields (owner : String) (positive : 0 < scope) {later : ScopeId}
    (inside : scope < later) (names : List TypedName) :
    Ordered later (fields next scope owner names) := by
  induction names with
  | nil => trivial
  | cons name rest ih =>
    have types := (plain_typeExpr next name.type).ordered later
    simp only [fields, ordered_append, (plain_typeExpr next name.type).opened, opened_append]
    exact ⟨⟨types, positive, inside, trivial⟩, ih⟩

@[simp]
theorem opened_parameters (names : List TypedName) : opened (parameters scope names) = 0 := by
  induction names with
  | nil => rfl
  | cons name rest ih => simp [parameters, annotated, ih]

theorem declared_parameters (home : ScopeId) (names : List TypedName) :
    declared home (parameters scope names) =
      if scope = home then names.map (named scope .param) else [] := by
  induction names with
  | nil => simp [parameters]
  | cons name rest ih =>
    by_cases same : scope = home <;> simp_all [parameters, annotated, named]

theorem ordered_parameters (positive : 0 < scope) (inside : scope < next)
    (names : List TypedName) : Ordered next (parameters scope names) := by
  induction names with
  | nil => trivial
  | cons name rest ih => exact ⟨positive, inside, ih⟩

@[simp]
theorem opened_declareMembers (members : List Member) :
    opened (declareMembers scope members) = 0 := by
  induction members with
  | nil => rfl
  | cons member rest ih => cases member <;> simp [declareMembers, ih]

theorem declared_declareMembers (home : ScopeId) (members : List Member) :
    declared home (declareMembers scope members) =
      if scope = home then members.map (membership scope) else [] := by
  induction members with
  | nil => simp [declareMembers]
  | cons member rest ih =>
    cases member <;> by_cases same : scope = home <;>
      simp_all [declareMembers, membership, named]

theorem ordered_declareMembers (positive : 0 < scope) (inside : scope < next)
    (members : List Member) : Ordered next (declareMembers scope members) := by
  induction members with
  | nil => trivial
  | cons member rest ih => cases member <;> exact ⟨positive, inside, ih⟩

@[simp]
theorem opened_varDecl (decl : VariableDecl) : opened (varDecl scope decl) = 0 := by
  obtain ⟨mark, name, form⟩ := decl
  cases form with
  | typed type value =>
    cases value with
    | none => simp [varDecl, annotated, (plain_typeExpr scope type).opened]
    | some value =>
      simp [varDecl, annotated, (plain_typeExpr scope type).opened,
        (plain_expr scope (.type type.id) value).opened]
  | inferred value => simp [varDecl, (plain_expr scope .none value).opened]

theorem declared_varDecl (home : ScopeId) (decl : VariableDecl) :
    declared home (varDecl scope decl) =
      if scope = home then introduced scope (.var decl) else [] := by
  obtain ⟨mark, name, form⟩ := decl
  cases form with
  | typed type value =>
    cases value with
    | none => simp [varDecl, annotated, (plain_typeExpr scope type).declared, introduced]
    | some value =>
      simp [varDecl, annotated, (plain_typeExpr scope type).declared,
        (plain_expr scope (.type type.id) value).declared, introduced]
  | inferred value => simp [varDecl, (plain_expr scope .none value).declared, introduced]

theorem ordered_varDecl (positive : 0 < scope) (inside : scope < next) (decl : VariableDecl) :
    Ordered next (varDecl scope decl) := by
  obtain ⟨mark, name, form⟩ := decl
  cases form with
  | typed type value =>
    have types := (plain_typeExpr scope type).ordered next
    have none := (plain_typeExpr scope type).opened
    cases value with
    | none => simp_all [varDecl, annotated, ordered_append, Ordered]
    | some value =>
      have values := (plain_expr scope (.type type.id) value).ordered next
      have noneToo := (plain_expr scope (.type type.id) value).opened
      simp_all [varDecl, annotated, ordered_append, Ordered]
  | inferred value =>
    have values := (plain_expr scope .none value).ordered next
    have none := (plain_expr scope .none value).opened
    simp_all [varDecl, ordered_append, Ordered]

/-! ## Conditions and branches -/

/-- The steps for the condition of a statement. -/
def test (scope : ScopeId) (statement : Conditional) (condition : Expr) : List Step :=
  expr scope .none condition ++ [.rule (.condition statement condition)]

theorem plain_test (scope : ScopeId) (statement : Conditional) (condition : Expr) :
    Plain (test scope statement condition) :=
  plain_append.mpr ⟨plain_expr scope .none condition, plain_single rfl⟩

/-- The steps for the body of a branch or loop. -/
def branch (scope next : ScopeId) (enclosing : Option FunctionDecl) (s : Stmt) : List Step :=
  openBody scope next s ++
    stmt (bodyScope scope next s) (next + opened (openBody scope next s)) enclosing s

section Branches

variable (enclosing : Option FunctionDecl) (mark : Mark) (condition : Expr)

theorem branch_block (b : Block) :
    branch scope next enclosing (.block b) = block scope next enclosing b := rfl

/-- A body that is no block is gone through like a block of its own. -/
theorem branch_alone {s : Stmt} (noBlock : ∀ b, s ≠ .block b) :
    branch scope next enclosing s = .openScope next .block scope ::
      (hoist next [s] ++ stmts next (next + 1) enclosing [s] ++ []) := by
  have openBody : openBody scope next s = .openScope next .block scope :: hoist next [s] := by
    cases s <;> first | rfl | exact absurd rfl (noBlock _)
  have bodyScope : bodyScope scope next s = next := by
    cases s <;> first | rfl | exact absurd rfl (noBlock _)
  simp [branch, openBody, bodyScope, stmts]

theorem stmt_ifThen (thenBody : Stmt) :
    stmt scope next enclosing (.ifElse mark condition thenBody none) =
      test scope .if condition ++ branch scope next enclosing thenBody ++
        [.rule (.branchesReturn mark thenBody.id none)] := by
  simp only [stmt, test, branch, List.append_assoc]

theorem stmt_ifElse (thenBody elseBody : Stmt) :
    stmt scope next enclosing (.ifElse mark condition thenBody (some elseBody)) =
      test scope .if condition ++ (branch scope next enclosing thenBody ++
          branch scope (next + opened (branch scope next enclosing thenBody)) enclosing elseBody) ++
        [.rule (.branchesReturn mark thenBody.id (some elseBody.id))] := by
  simp only [stmt, test, branch, List.append_assoc]

theorem stmt_while (body : Stmt) :
    stmt scope next enclosing (.while mark condition body) =
      test scope .while condition ++ branch scope next enclosing body ++
        [.returns mark false] := by
  simp only [stmt, test, branch, List.append_assoc]

end Branches

/-! ## The order of the scopes -/

theorem bodyScope_lt (inside : scope < next) (s : Stmt) :
    bodyScope scope next s < next + opened (openBody scope next s) := by
  cases s with
  | block b => exact inside
  | _ => simp [bodyScope, openBody]

theorem bodyScope_pos (positive : 0 < scope) (inside : scope < next) (s : Stmt) :
    0 < bodyScope scope next s := by
  cases s with
  | block b => exact positive
  | _ => exact Nat.lt_of_le_of_lt (Nat.zero_le _) inside

theorem ordered_openBody (inside : scope < next) (s : Stmt) :
    Ordered next (openBody scope next s) := by
  have positive : 0 < next := Nat.lt_of_le_of_lt (Nat.zero_le _) inside
  cases s with
  | block b => trivial
  | _ => exact ⟨rfl, inside, ordered_hoist positive (Nat.lt_succ_self _) _⟩

/-- The steps for a branch are ordered if those for its body are. -/
theorem ordered_branch_of {enclosing : Option FunctionDecl} {s : Stmt}
    (body : ∀ {scope next : ScopeId}, 0 < scope → scope < next →
      Ordered next (stmt scope next enclosing s))
    (positive : 0 < scope) (inside : scope < next) : Ordered next (branch scope next enclosing s) :=
  ordered_append.mpr ⟨ordered_openBody inside s,
    body (bodyScope_pos positive inside s) (bodyScope_lt inside s)⟩

mutual

/-- The steps for a statement open scopes from the next one on, and declare in open ones. -/
theorem ordered_stmt {scope next : ScopeId} (positive : 0 < scope) (inside : scope < next)
    (enclosing : Option FunctionDecl) : ∀ s : Stmt, Ordered next (stmt scope next enclosing s)
  | .block b => ordered_block inside enclosing b
  | .expression _ e => by
    rw [stmt, ordered_append]
    exact ⟨(plain_expr scope .none e).ordered _, trivial⟩
  | .var decl => ordered_varDecl positive inside decl
  | .function decl => by
    rw [stmt, ordered_append]
    exact ⟨ordered_function inside decl, trivial⟩
  | .struct decl => by
    simp only [stmt, struct, ordered_append, opened_append, opened_fields, opened_returns_cons,
      opened_openScope_cons, opened_nil, Nat.add_zero]
    have positive : 0 < next := Nat.lt_of_le_of_lt (Nat.zero_le _) inside
    exact ⟨⟨⟨rfl, inside, trivial⟩, ordered_fields decl.name positive (Nat.lt_succ_self _) _⟩,
      positive, Nat.lt_succ_self _, trivial⟩
  | .box decl => ordered_box inside decl
  | .ifElse mark condition thenBody none => by
    have body := ordered_branch_of (fun positive inside =>
      ordered_stmt positive inside enclosing thenBody) positive inside
    rw [stmt_ifThen]
    exact ordered_between (plain_test scope .if condition) body (plain_single rfl)
  | .ifElse mark condition thenBody (some elseBody) => by
    have first := ordered_branch_of (fun positive inside =>
      ordered_stmt positive inside enclosing thenBody) positive inside
    have further := Nat.lt_add_right (opened (branch scope next enclosing thenBody)) inside
    have second := ordered_branch_of (fun positive inside =>
      ordered_stmt positive inside enclosing elseBody) positive further
    rw [stmt_ifElse]
    exact ordered_between (plain_test scope .if condition) (ordered_append.mpr ⟨first, second⟩)
      (plain_single rfl)
  | .while mark condition body => by
    have inner := ordered_branch_of (fun positive inside =>
      ordered_stmt positive inside enclosing body) positive inside
    rw [stmt_while]
    exact ordered_between (plain_test scope .while condition) inner (plain_single rfl)
  | .return mark value => by
    have last : ∀ next : ScopeId, Ordered next (.returns mark true :: match enclosing with
        | some enclosing => [.rule (.returned mark value enclosing)]
        | none => []) := by
      intro next
      cases enclosing <;> trivial
    simp only [stmt, ordered_append]
    refine ⟨?_, last _⟩
    cases value with
    | none => trivial
    | some value => exact (plain_expr scope _ value).ordered _

theorem ordered_block {scope next : ScopeId} (inside : scope < next)
    (enclosing : Option FunctionDecl) : ∀ b : Block, Ordered next (block scope next enclosing b)
  | ⟨_, body⟩ => by
    have nextPositive : 0 < next := Nat.lt_of_le_of_lt (Nat.zero_le _) inside
    refine ⟨rfl, inside, ?_⟩
    rw [ordered_append, ordered_append, opened_hoist]
    exact ⟨⟨ordered_hoist nextPositive (Nat.lt_succ_self _) body,
      ordered_stmts nextPositive (Nat.lt_succ_self _) enclosing body⟩, trivial⟩

theorem ordered_stmts {scope next : ScopeId} (positive : 0 < scope) (inside : scope < next)
    (enclosing : Option FunctionDecl) : ∀ body : List Stmt,
    Ordered next (stmts scope next enclosing body)
  | [] => trivial
  | s :: rest => by
    rw [stmts, ordered_append]
    exact ⟨ordered_stmt positive inside enclosing s,
      ordered_stmts positive (Nat.lt_add_right _ inside) enclosing rest⟩

theorem ordered_function {scope next : ScopeId} (inside : scope < next) :
    ∀ decl : FunctionDecl, Ordered next (function scope next decl)
  | ⟨mark, name, params, result, body⟩ => by
    have nextPositive : 0 < next := Nat.lt_of_le_of_lt (Nat.zero_le _) inside
    have types := plain_parameterTypes scope params
    have block := ordered_block (Nat.lt_succ_self next)
      (some ⟨mark, name, params, result, body⟩) body
    have names := ordered_parameters nextPositive (Nat.lt_succ_self next) params
    cases result with
    | none =>
      simp only [function, ordered_append, opened_append, types.opened, opened_nil, Nat.add_zero]
      refine ⟨⟨types.ordered _, trivial⟩, rfl, inside, ?_⟩
      simp only [ordered_append, opened_parameters]
      exact ⟨names, ordered_append.mpr ⟨block, trivial⟩⟩
    | some type =>
      have given := plain_typeExpr scope type
      simp only [function, ordered_append, opened_append, types.opened, given.opened,
        Nat.add_zero]
      refine ⟨⟨types.ordered _, given.ordered _⟩, rfl, inside, ?_⟩
      simp only [ordered_append, opened_parameters]
      exact ⟨names, ordered_append.mpr ⟨block, trivial⟩⟩

theorem ordered_box {scope next : ScopeId} (inside : scope < next) :
    ∀ decl : BoxDecl, Ordered next (box scope next decl)
  | ⟨mark, name, members⟩ => by
    have nextPositive : 0 < next := Nat.lt_of_le_of_lt (Nat.zero_le _) inside
    simp only [box, ordered_append, opened_append, opened_returns_cons, opened_openScope_cons,
      opened_nil, opened_declareMembers, opened_setMembers_cons, Nat.add_zero]
    exact ⟨⟨⟨⟨rfl, inside, trivial⟩,
      ordered_declareMembers nextPositive (Nat.lt_succ_self _) members⟩,
      nextPositive, Nat.lt_succ_self _, trivial⟩,
      ordered_boxMembers nextPositive (Nat.lt_succ_self _) name members⟩

theorem ordered_boxMembers {scope inner next : ScopeId} (positive : 0 < inner)
    (inside : inner < next) (owner : String) : ∀ members : List Member,
    Ordered next (boxMembers scope inner next owner members)
  | [] => trivial
  | .attr decl :: rest => by
    have types := plain_typeExpr scope decl.type
    simp only [boxMembers, annotated, ordered_append, opened_append, types.opened,
      opened_rule_cons, opened_nil]
    exact ⟨⟨types.ordered _, trivial⟩, ordered_boxMembers positive inside owner rest⟩
  | .meth decl :: rest => by
    rw [boxMembers, ordered_append]
    exact ⟨ordered_function inside decl,
      ordered_boxMembers positive (Nat.lt_add_right _ inside) owner rest⟩

end

theorem ordered_program (body : List Stmt) : Ordered 1 (program body) := by
  refine ⟨rfl, Nat.zero_lt_one, ?_⟩
  rw [ordered_append, opened_hoist]
  exact ⟨ordered_hoist Nat.zero_lt_one Nat.one_lt_two body,
    ordered_stmts Nat.zero_lt_one Nat.one_lt_two none body⟩

/-! ## What statements declare in the scopes around them -/

theorem declared_openBody {home : ScopeId} (isOpen : home < next) (s : Stmt) :
    declared home (openBody scope next s) = [] := by
  have apart : next ≠ home := (Nat.ne_of_lt isOpen).symm
  cases s <;> simp [openBody, declared_hoist, apart]

/-- A body that is no block has a scope of its own for its variable. -/
theorem introduced_body {home : ScopeId} (isOpen : home < next) (s : Stmt) :
    (if bodyScope scope next s = home then introduced (bodyScope scope next s) s else []) = [] := by
  have apart : next ≠ home := (Nat.ne_of_lt isOpen).symm
  cases s with
  | block b => exact ite_self []
  | _ => exact if_neg apart

/-- If the body of a branch declares in its own scope only, of the scopes that are open before it,
the branch declares in none of them. -/
theorem declared_branch_of {enclosing : Option FunctionDecl} {s : Stmt}
    (body : ∀ (scope : ScopeId) {next home : ScopeId}, home < next →
      declared home (stmt scope next enclosing s) =
        if scope = home then introduced scope s else [])
    (scope : ScopeId) {home : ScopeId} (isOpen : home < next) :
    declared home (branch scope next enclosing s) = [] := by
  rw [branch, declared_append, declared_openBody isOpen, body _ (Nat.lt_add_right _ isOpen),
    introduced_body isOpen, List.append_nil]

mutual

/-- Of the scopes that are open before it, a statement declares in its own only. -/
theorem declared_stmt (scope : ScopeId) {next home : ScopeId} (isOpen : home < next)
    (enclosing : Option FunctionDecl) : ∀ s : Stmt,
    declared home (stmt scope next enclosing s) = if scope = home then introduced scope s else []
  | .block b => by
    rw [stmt, declared_block scope isOpen enclosing b]
    exact (ite_self []).symm
  | .expression _ e => by
    simp [stmt, (plain_expr scope .none e).declared, introduced]
  | .var decl => declared_varDecl home decl
  | .function decl => by
    simp [stmt, declared_function scope isOpen decl, introduced]
  | .struct decl => by
    have apart : next ≠ home := (Nat.ne_of_lt isOpen).symm
    simp [stmt, struct, declared_fields, apart, introduced]
  | .box decl => by
    rw [stmt, declared_box scope isOpen decl]
    exact (ite_self []).symm
  | .ifElse mark condition thenBody none => by
    have body := declared_branch_of (fun scope _ _ isOpen =>
      declared_stmt scope isOpen enclosing thenBody) scope isOpen
    rw [stmt_ifThen, declared_between (plain_test scope .if condition) (plain_single rfl), body]
    exact (ite_self []).symm
  | .ifElse mark condition thenBody (some elseBody) => by
    have first := declared_branch_of (fun scope _ _ isOpen =>
      declared_stmt scope isOpen enclosing thenBody) scope isOpen
    have stillOpen := Nat.lt_add_right (opened (branch scope next enclosing thenBody)) isOpen
    have second := declared_branch_of (fun scope _ _ isOpen =>
      declared_stmt scope isOpen enclosing elseBody) scope stillOpen
    rw [stmt_ifElse, declared_between (plain_test scope .if condition) (plain_single rfl),
      declared_append, first, second]
    exact (ite_self []).symm
  | .while mark condition body => by
    have inner := declared_branch_of (fun scope _ _ isOpen =>
      declared_stmt scope isOpen enclosing body) scope isOpen
    rw [stmt_while, declared_between (plain_test scope .while condition) (plain_single rfl), inner]
    exact (ite_self []).symm
  | .return mark value => by
    cases enclosing <;> cases value <;>
      simp [stmt, (plain_expr scope _ _).declared, introduced]

theorem declared_block (scope : ScopeId) {next home : ScopeId} (isOpen : home < next)
    (enclosing : Option FunctionDecl) : ∀ b : Block,
    declared home (block scope next enclosing b) = []
  | ⟨_, body⟩ => by
    have apart : next ≠ home := (Nat.ne_of_lt isOpen).symm
    simp [block, declared_hoist, apart,
      declared_stmts next (Nat.lt_succ_of_lt isOpen) enclosing body]

theorem declared_stmts (scope : ScopeId) {next home : ScopeId} (isOpen : home < next)
    (enclosing : Option FunctionDecl) : ∀ body : List Stmt,
    declared home (stmts scope next enclosing body) =
      if scope = home then body.flatMap (introduced scope) else []
  | [] => by simp [stmts]
  | s :: rest => by
    rw [stmts, declared_append, declared_stmt scope isOpen enclosing s,
      declared_stmts scope (Nat.lt_add_right _ isOpen) enclosing rest]
    split <;> simp

theorem declared_function (scope : ScopeId) {next home : ScopeId} (isOpen : home < next) :
    ∀ decl : FunctionDecl, declared home (function scope next decl) = []
  | ⟨mark, name, params, result, body⟩ => by
    have apart : next ≠ home := (Nat.ne_of_lt isOpen).symm
    have types := plain_parameterTypes scope params
    have inside := declared_block next (Nat.lt_succ_of_lt isOpen)
      (some ⟨mark, name, params, result, body⟩) body
    cases result with
    | none => simp [function, types.declared, declared_parameters, apart, inside]
    | some type =>
      simp [function, types.declared, (plain_typeExpr scope type).declared, declared_parameters,
        apart, inside]

theorem declared_box (scope : ScopeId) {next home : ScopeId} (isOpen : home < next) :
    ∀ decl : BoxDecl, declared home (box scope next decl) = []
  | ⟨mark, name, members⟩ => by
    have apart : next ≠ home := (Nat.ne_of_lt isOpen).symm
    simp [box, declared_declareMembers, apart,
      declared_boxMembers scope next (Nat.lt_succ_of_lt isOpen) name members]

theorem declared_boxMembers (scope inner : ScopeId) {next home : ScopeId} (isOpen : home < next)
    (owner : String) : ∀ members : List Member,
    declared home (boxMembers scope inner next owner members) = []
  | [] => by simp [boxMembers]
  | .attr decl :: rest => by
    simp [boxMembers, annotated, (plain_typeExpr scope decl.type).declared,
      declared_boxMembers scope inner isOpen owner rest]
  | .meth decl :: rest => by
    rw [boxMembers, declared_append, declared_function inner isOpen decl,
      declared_boxMembers scope inner (Nat.lt_add_right _ isOpen) owner rest]
    rfl

end

end Walk

end BoxScript
