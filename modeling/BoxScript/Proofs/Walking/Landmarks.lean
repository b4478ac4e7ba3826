import BoxScript.Proofs.Syntax.Order
import BoxScript.Proofs.Walking.Ownership

/-!
# The order of the walk

The walk comes by the names of a program and by the ends of its variables in the order in which the
tree lists them (`Walk.landmarks_program`), and the steps for a part of a program keep their order
among those for the whole. So what the source says of the order of names and variables holds of the
nodes of every part that the walk has gone through (`Walk.precedes_of_owned`), even where only the
steps of the part are known.
-/

set_option autoImplicit false

namespace BoxScript

/-- What decides when a name is visible: where a name starts, and where a variable ends. -/
inductive Landmark
  | name (start : Nat)
  | variable (stop : Nat)

/-- If a name comes before a variable, it starts before the end of the variable. -/
def Landmark.Precedes (first second : Landmark) : Prop :=
  ∀ start stop, first = .name start → second = .variable stop → start < stop

/-! ## Landmarks of nodes -/

namespace Node

def landmark? : Node → Option Landmark
  | .expr (.symbol mark _) => some (.name mark.span.start.offset)
  | .stmt (.var decl) => some (.variable decl.mark.span.stop.offset)
  | _ => none

/-- The landmarks among nodes, in their order. -/
def landmarks (nodes : List Node) : List Landmark := nodes.filterMap landmark?

@[simp]
theorem landmarks_nil : landmarks [] = [] := rfl

@[simp]
theorem landmarks_append (first second : List Node) :
    landmarks (first ++ second) = landmarks first ++ landmarks second :=
  List.filterMap_append

@[simp]
theorem landmarks_type (type : TypeExpr) : landmarks type.nodes = [] := by
  induction type with
  | named mark name => rfl
  | array mark component ih =>
    rw [TypeExpr.nodes, landmarks_append, ih]
    rfl

@[simp]
theorem landmarks_typedName (name : TypedName) : landmarks name.nodes = [] := by
  rw [TypedName.nodes, landmarks_append, landmarks_type]
  rfl

@[simp]
theorem landmarks_names (names : List TypedName) :
    landmarks (names.flatMap TypedName.nodes) = [] := by
  induction names with
  | nil => rfl
  | cons name rest ih => simp [ih]

@[simp]
theorem landmarks_result (result : Option TypeExpr) :
    landmarks ((result.map TypeExpr.nodes).getD []) = [] := by
  cases result <;> simp

/-- The order of nodes is that of their landmarks. -/
theorem precedes_iff {nodes : List Node} :
    (landmarks nodes).Pairwise Landmark.Precedes ↔ nodes.Pairwise Precedes := by
  rw [landmarks, List.pairwise_filterMap]
  refine List.Pairwise.iff fun {first second} => ⟨?_, ?_⟩
  · rintro precedes mark name decl rfl rfl
    exact precedes _ rfl _ rfl _ _ rfl rfl
  · rintro precedes mine is other isOther start stop rfl rfl
    unfold landmark? at is isOther
    split at is <;> cases is
    split at isOther <;> cases isOther
    exact precedes _ _ _ rfl rfl

end Node

/-! ## Landmarks of steps -/

namespace Step

def landmark? : Step → Option Landmark
  | .expr _ _ (.symbol mark _) => some (.name mark.span.start.offset)
  | .declare _ _ .var _ position => some (.variable position)
  | _ => none

/-- The landmarks that steps come by, in their order. -/
def landmarks (steps : List Step) : List Landmark := steps.filterMap landmark?

@[simp]
theorem landmarks_nil : landmarks [] = [] := rfl

@[simp]
theorem landmarks_append (first second : List Step) :
    landmarks (first ++ second) = landmarks first ++ landmarks second :=
  List.filterMap_append

@[simp]
theorem landmarks_openScope_cons (scope parent : ScopeId) (kind : ScopeKind) (rest : List Step) :
    landmarks (.openScope scope kind parent :: rest) = landmarks rest := rfl

@[simp]
theorem landmarks_rule_cons (rule : Rule) (rest : List Step) :
    landmarks (.rule rule :: rest) = landmarks rest := rfl

@[simp]
theorem landmarks_returns_cons (mark : Mark) (value : Bool) (rest : List Step) :
    landmarks (.returns mark value :: rest) = landmarks rest := rfl

@[simp]
theorem landmarks_setMembers_cons (owner : NodeId) (scope : ScopeId) (rest : List Step) :
    landmarks (.setMembers owner scope :: rest) = landmarks rest := rfl

end Step

namespace Walk

open Step

variable {scope next : ScopeId} {enclosing : Option FunctionDecl}

@[simp]
theorem landmarks_typeExpr (scope : ScopeId) (type : TypeExpr) :
    landmarks (typeExpr scope type) = [] := by
  induction type with
  | named mark name => rfl
  | array mark component ih =>
    rw [typeExpr, landmarks_append, ih]
    rfl

@[simp]
theorem landmarks_hoist (scope : ScopeId) (body : List Stmt) :
    landmarks (hoist scope body) = [] := by
  induction body with
  | nil => rfl
  | cons s rest ih => cases s <;> exact ih

@[simp]
theorem landmarks_fields (scope members : ScopeId) (owner : String) (names : List TypedName) :
    landmarks (fields scope members owner names) = [] := by
  induction names with
  | nil => rfl
  | cons name rest ih =>
    rw [fields, landmarks_append, landmarks_append, landmarks_typeExpr, ih]
    rfl

@[simp]
theorem landmarks_parameterTypes (scope : ScopeId) (names : List TypedName) :
    landmarks (parameterTypes scope names) = [] := by
  induction names with
  | nil => rfl
  | cons name rest ih => rw [parameterTypes, landmarks_append, landmarks_typeExpr, ih]; rfl

@[simp]
theorem landmarks_parameters (scope : ScopeId) (names : List TypedName) :
    landmarks (parameters scope names) = [] := by
  induction names with
  | nil => rfl
  | cons name rest ih => rw [parameters, landmarks_append, ih]; rfl

@[simp]
theorem landmarks_declareMembers (scope : ScopeId) (members : List Member) :
    landmarks (declareMembers scope members) = [] := by
  induction members with
  | nil => rfl
  | cons member rest ih => cases member <;> exact ih

/-! ## Expressions -/

mutual

theorem landmarks_expr (scope : ScopeId) : ∀ (expectation : Expectation) (e : Expr),
    landmarks (expr scope expectation e) = Node.landmarks e.nodes
  | _, .int _ _ | _, .float _ _ | _, .string _ _ | _, .bool _ _ | _, .null _ | _, .symbol _ _
  | _, .constructor _ _ | _, .create _ _ => rfl
  | expectation, .array _ elements => by
    rw [expr, Expr.nodes, landmarks_append, landmarks_exprs scope _ elements,
      Node.landmarks_append]
    rfl
  | expectation, .paren _ inner => by
    rw [expr, Expr.nodes, landmarks_append, landmarks_expr scope expectation inner,
      Node.landmarks_append]
    rfl
  | expectation, .unary _ _ operand => by
    rw [expr, Expr.nodes, landmarks_append, landmarks_expr scope .none operand,
      Node.landmarks_append]
    rfl
  | expectation, .binary _ _ left right => by
    rw [expr, Expr.nodes, landmarks_append, landmarks_append, landmarks_expr scope .none left,
      landmarks_expr scope .none right, Node.landmarks_append, Node.landmarks_append]
    rfl
  | expectation, .assign _ target value => by
    rw [expr, Expr.nodes, landmarks_append, landmarks_append, landmarks_expr scope .none target,
      landmarks_expr scope _ value, Node.landmarks_append, Node.landmarks_append]
    rfl
  | expectation, .call _ callee given => by
    rw [expr, Expr.nodes, landmarks_append, landmarks_append, landmarks_expr scope .none callee,
      landmarks_arguments scope callee.id 0 given, Node.landmarks_append, Node.landmarks_append]
    rfl
  | expectation, .index _ owner place => by
    rw [expr, Expr.nodes, landmarks_append, landmarks_append, landmarks_expr scope .none owner,
      landmarks_expr scope .none place, Node.landmarks_append, Node.landmarks_append]
    rfl
  | expectation, .field _ receiver _ => by
    rw [expr, Expr.nodes, landmarks_append, landmarks_expr scope .none receiver,
      Node.landmarks_append]
    rfl
  | expectation, .member _ receiver _ => by
    rw [expr, Expr.nodes, landmarks_append, landmarks_expr scope .none receiver,
      Node.landmarks_append]
    rfl

theorem landmarks_exprs (scope : ScopeId) : ∀ (expectation : Expectation) (es : List Expr),
    landmarks (exprs scope expectation es) = Node.landmarks (Expr.nodesOfAll es)
  | _, [] => rfl
  | expectation, e :: rest => by
    rw [exprs, Expr.nodesOfAll, landmarks_append, landmarks_expr scope expectation e,
      landmarks_exprs scope expectation rest, Node.landmarks_append]

theorem landmarks_arguments (scope : ScopeId) (callee : NodeId) : ∀ (index : Nat) (es : List Expr),
    landmarks (arguments scope callee index es) = Node.landmarks (Expr.nodesOfAll es)
  | _, [] => rfl
  | index, e :: rest => by
    rw [arguments, Expr.nodesOfAll, landmarks_append, landmarks_expr scope _ e,
      landmarks_arguments scope callee (index + 1) rest, Node.landmarks_append]

end

/-! ## Statements -/

theorem landmarks_varDecl (scope : ScopeId) (decl : VariableDecl) :
    landmarks (varDecl scope decl) = Node.landmarks (Stmt.nodes (.var decl)) := by
  obtain ⟨mark, name, form⟩ := decl
  cases form with
  | typed type value =>
    cases value with
    | none =>
      simp only [varDecl, Stmt.nodes, VariableForm.nodes, landmarks_append, landmarks_typeExpr,
        Node.landmarks_append, Node.landmarks_type]
      rfl
    | some value =>
      simp only [varDecl, Stmt.nodes, VariableForm.nodes, landmarks_append, landmarks_typeExpr,
        landmarks_expr, Node.landmarks_append, Node.landmarks_type, List.append_assoc]
      rfl
  | inferred value =>
    simp only [varDecl, Stmt.nodes, VariableForm.nodes, landmarks_append, landmarks_expr,
      Node.landmarks_append, List.append_assoc]
    rfl

/-- A branch has the landmarks of its body. -/
theorem landmarks_branch_of {s : Stmt}
    (body : ∀ scope next, landmarks (stmt scope next enclosing s) = Node.landmarks s.nodes) :
    landmarks (branch scope next enclosing s) = Node.landmarks s.nodes := by
  have opening : landmarks (openBody scope next s) = [] := by
    cases s <;> rfl
  rw [branch, landmarks_append, opening, body, List.nil_append]

mutual

/-- The walk comes by the landmarks of a statement in the order in which its nodes are listed. -/
theorem landmarks_stmt (scope next : ScopeId) (enclosing : Option FunctionDecl) : ∀ s : Stmt,
    landmarks (stmt scope next enclosing s) = Node.landmarks s.nodes
  | .block b => landmarks_block scope next enclosing b
  | .expression _ e => by
    simp only [stmt, Stmt.nodes, landmarks_append, landmarks_expr, Node.landmarks_append]
    rfl
  | .var decl => landmarks_varDecl scope decl
  | .function decl => by
    simp only [stmt, Stmt.nodes, landmarks_append, landmarks_function scope next decl,
      Node.landmarks_append]
    rfl
  | .struct decl => by
    simp only [stmt, struct, Stmt.nodes, landmarks_append, landmarks_fields,
      Node.landmarks_append, Node.landmarks_names]
    rfl
  | .box decl => by
    simp only [stmt, Stmt.nodes, landmarks_box scope next decl, Node.landmarks_append]
    exact (List.append_nil _).symm
  | .ifElse mark condition thenBody none => by
    rw [stmt_ifThen, landmarks_append, landmarks_append,
      landmarks_branch_of fun scope next => landmarks_stmt scope next enclosing thenBody]
    simp only [test, Stmt.nodes, landmarks_append, landmarks_expr, Node.landmarks_append]
    simp [Node.landmarks, Node.landmark?]
  | .ifElse mark condition thenBody (some elseBody) => by
    rw [stmt_ifElse, landmarks_append, landmarks_append, landmarks_append,
      landmarks_branch_of fun scope next => landmarks_stmt scope next enclosing thenBody,
      landmarks_branch_of fun scope next => landmarks_stmt scope next enclosing elseBody]
    simp only [test, Stmt.nodes, landmarks_append, landmarks_expr, Node.landmarks_append]
    simp [Node.landmarks, Node.landmark?]
  | .while mark condition body => by
    rw [stmt_while, landmarks_append, landmarks_append,
      landmarks_branch_of fun scope next => landmarks_stmt scope next enclosing body]
    simp only [test, Stmt.nodes, landmarks_append, landmarks_expr, Node.landmarks_append]
    simp [Node.landmarks, Node.landmark?]
  | .return mark none => by cases enclosing <;> rfl
  | .return mark (some value) => by
    cases enclosing <;>
      · simp only [stmt, Stmt.nodes, landmarks_append, landmarks_expr, Node.landmarks_append]
        rfl

theorem landmarks_block (scope next : ScopeId) (enclosing : Option FunctionDecl) : ∀ b : Block,
    landmarks (block scope next enclosing b) = Node.landmarks b.nodes
  | ⟨mark, body⟩ => by
    simp only [block, Block.nodes, landmarks_openScope_cons, landmarks_append, landmarks_hoist,
      landmarks_stmts next (next + 1) enclosing body, Node.landmarks_append]
    rfl

theorem landmarks_stmts (scope next : ScopeId) (enclosing : Option FunctionDecl) :
    ∀ body : List Stmt,
    landmarks (stmts scope next enclosing body) = Node.landmarks (Stmt.nodesOfAll body)
  | [] => rfl
  | s :: rest => by
    simp only [stmts, Stmt.nodesOfAll, landmarks_append, landmarks_stmt scope next enclosing s,
      landmarks_stmts scope _ enclosing rest, Node.landmarks_append]

theorem landmarks_function (scope next : ScopeId) : ∀ decl : FunctionDecl,
    landmarks (function scope next decl) = Node.landmarks decl.nodes
  | ⟨mark, name, params, result, body⟩ => by
    have inside := landmarks_block next (next + 1) (some ⟨mark, name, params, result, body⟩) body
    cases result with
    | none => simp [function, FunctionDecl.nodes, inside]
    | some type => simp [function, FunctionDecl.nodes, inside]

theorem landmarks_box (scope next : ScopeId) : ∀ decl : BoxDecl,
    landmarks (box scope next decl) = Node.landmarks decl.nodes
  | ⟨mark, name, members⟩ => by
    simp [box, BoxDecl.nodes, landmarks_boxMembers scope next (next + 1) name members]

theorem landmarks_boxMembers (scope members next : ScopeId) (owner : String) :
    ∀ inside : List Member, landmarks (boxMembers scope members next owner inside) =
      Node.landmarks (Member.nodesOfAll inside)
  | [] => rfl
  | .attr decl :: rest => by
    simp [boxMembers, annotated, Member.nodesOfAll,
      landmarks_boxMembers scope members next owner rest]
  | .meth decl :: rest => by
    simp only [boxMembers, Member.nodesOfAll, landmarks_append,
      landmarks_function members next decl, landmarks_boxMembers scope members _ owner rest,
      Node.landmarks_append]
    simp [Node.landmarks, Node.landmark?]

end

/-- The walk over a program comes by its landmarks in their order. -/
theorem landmarks_program (body : List Stmt) :
    landmarks (program body) = Node.landmarks (Stmt.nodesOfAll body) := by
  simp [program, landmarks_stmts]

/-! ## Parts of a program -/

/-- The nodes of statements that the walk has gone through are ordered as the whole program is. -/
theorem precedes_of_owned {steps : List Step} {body : List Stmt}
    (ordered : (landmarks steps).Pairwise Landmark.Precedes)
    (owned : Owned steps next (stmts scope next enclosing body)) :
    (Stmt.nodesOfAll body).Pairwise Node.Precedes := by
  have part : (landmarks (stmts scope next enclosing body)).Sublist (landmarks steps) :=
    owned.stretch.filterMap landmark?
  rw [landmarks_stmts] at part
  exact Node.precedes_iff.mp (ordered.sublist part)

end Walk

/-- The walk over the program that a source spells comes by each name before the ends of the
variables that follow. -/
theorem ordered_walk_of_readProgram {file : String} {source : List Char} {program : Program}
    (read : readProgram file source = .ok program) :
    (Step.landmarks (Walk.program program.body)).Pairwise Landmark.Precedes := by
  rw [Walk.landmarks_program]
  exact Node.precedes_iff.mpr (ordered_of_readProgram read)

end BoxScript
