import BoxScript.Proofs.Syntax.Nodes

/-!
# Trees cast anew

A tree can be cast anew without a change of its meaning: its spans may be others, variables and
parameters may have other names, expressions may stand in parentheses of their own, and the body of
a branch or loop that is no block may stand in braces. `Recast` says which of these happens where.
All nodes keep their identities; the parentheses and braces that are put around nodes get the
identities that the recast gives them.
-/

set_option autoImplicit false

namespace BoxScript

/-- How a tree is cast anew: where a span comes to lie, how the variable, the parameter or the name
of a node is called, and the parentheses and braces that are put around a node. -/
structure Recast where
  span : Span → Span
  name : NodeId → String → String
  paren : NodeId → Option NodeId
  brace : NodeId → Option NodeId

namespace Recast

/-- Everything stays as it is. -/
def none : Recast := ⟨id, fun _ name => name, fun _ => .none, fun _ => .none⟩

/-- A mark where it comes to lie. -/
def mark (r : Recast) (mark : Mark) : Mark := ⟨mark.id, r.span mark.span⟩

@[simp]
theorem mark_id (r : Recast) (mark : Mark) : (r.mark mark).id = mark.id := rfl

@[simp]
theorem mark_span (r : Recast) (mark : Mark) : (r.mark mark).span = r.span mark.span := rfl

/-- An expression with the parentheses that are put around it. -/
def wrap (r : Recast) (mark : Mark) (e : Expr) : Expr :=
  match r.paren mark.id with
  | .none => e
  | some id => .paren ⟨id, r.span mark.span⟩ e

/-- The body of a branch or loop with the braces that are put around it. -/
def enclose (r : Recast) (body image : Stmt) : Stmt :=
  match body, r.brace body.id with
  | .block _, _ | _, .none => image
  | _, some id => .block ⟨⟨id, r.span body.span⟩, [image]⟩

/-- Whether no parentheses and no braces are put around anything. -/
structure Unwrapped (r : Recast) : Prop where
  paren : ∀ id, r.paren id = .none
  brace : ∀ id, r.brace id = .none

/-- Whether an identity is that of parentheses or braces that are put around a node. -/
def Puts (r : Recast) (node id : NodeId) : Prop := r.paren node = some id ∨ r.brace node = some id

theorem Unwrapped.wrap {r : Recast} (unwrapped : r.Unwrapped) (mark : Mark) (e : Expr) :
    r.wrap mark e = e := by
  simp only [Recast.wrap, unwrapped.paren]

theorem Unwrapped.enclose {r : Recast} (unwrapped : r.Unwrapped) (body image : Stmt) :
    r.enclose body image = image := by
  unfold Recast.enclose
  rw [unwrapped.brace]
  split
  · rfl
  · rfl
  · rename_i put
    cases put

/-- The body of a branch or loop is a block, or it stays without braces, or it gets some. -/
theorem enclose_cases (r : Recast) (s image : Stmt) :
    (∃ b, s = .block b ∧ r.enclose s image = image) ∨
      (∀ b, s ≠ .block b) ∧ (r.enclose s image = image ∨
        ∃ id, r.brace s.id = some id ∧
          r.enclose s image = .block ⟨⟨id, r.span s.span⟩, [image]⟩) := by
  by_cases isBlock : ∃ b, s = .block b
  · obtain ⟨b, rfl⟩ := isBlock
    exact .inl ⟨b, rfl, rfl⟩
  · have noBlock : ∀ b, s ≠ .block b := fun b is => isBlock ⟨b, is⟩
    refine .inr ⟨noBlock, ?_⟩
    unfold enclose
    split
    · exact absurd rfl (noBlock _)
    · exact .inl rfl
    · rename_i put
      exact .inr ⟨_, put, rfl⟩

theorem none_unwrapped : none.Unwrapped := ⟨fun _ => rfl, fun _ => rfl⟩

end Recast

/-! ## Trees -/

def TypeExpr.recast (r : Recast) : TypeExpr → TypeExpr
  | .named mark name => .named (r.mark mark) name
  | .array mark component => .array (r.mark mark) (component.recast r)

mutual

/-- An expression, its parts in the parentheses that are put around them. -/
def Expr.inside (r : Recast) : Expr → Expr
  | .int mark value => .int (r.mark mark) value
  | .float mark value => .float (r.mark mark) value
  | .string mark value => .string (r.mark mark) value
  | .bool mark value => .bool (r.mark mark) value
  | .null mark => .null (r.mark mark)
  | .symbol mark name => .symbol (r.mark mark) (r.name mark.id name)
  | .array mark elements => .array (r.mark mark) (Expr.recastAll r elements)
  | .paren mark inner => .paren (r.mark mark) (r.wrap inner.mark (inner.inside r))
  | .unary mark op operand => .unary (r.mark mark) op (r.wrap operand.mark (operand.inside r))
  | .binary mark op left right =>
    .binary (r.mark mark) op (r.wrap left.mark (left.inside r)) (r.wrap right.mark (right.inside r))
  | .assign mark target value =>
    .assign (r.mark mark) (r.wrap target.mark (target.inside r))
      (r.wrap value.mark (value.inside r))
  | .call mark callee given =>
    .call (r.mark mark) (r.wrap callee.mark (callee.inside r)) (Expr.recastAll r given)
  | .index mark owner place =>
    .index (r.mark mark) (r.wrap owner.mark (owner.inside r)) (r.wrap place.mark (place.inside r))
  | .field mark receiver name =>
    .field (r.mark mark) (r.wrap receiver.mark (receiver.inside r)) name
  | .member mark receiver name =>
    .member (r.mark mark) (r.wrap receiver.mark (receiver.inside r)) name
  | .constructor mark name => .constructor (r.mark mark) name
  | .create mark name => .create (r.mark mark) name

def Expr.recastAll (r : Recast) : List Expr → List Expr
  | [] => []
  | e :: rest => r.wrap e.mark (e.inside r) :: Expr.recastAll r rest

end

/-- An expression in the parentheses that are put around it. -/
def Expr.recast (r : Recast) (e : Expr) : Expr := r.wrap e.mark (e.inside r)

/-- A field or an attribute. -/
def TypedName.recast (r : Recast) (typed : TypedName) : TypedName :=
  ⟨r.mark typed.mark, typed.name, typed.type.recast r⟩

/-- A parameter. -/
def TypedName.recastParameter (r : Recast) (typed : TypedName) : TypedName :=
  ⟨r.mark typed.mark, r.name typed.mark.id typed.name, typed.type.recast r⟩

def VariableForm.recast (r : Recast) : VariableForm → VariableForm
  | .typed type value => .typed (type.recast r) (value.map (Expr.recast r))
  | .inferred value => .inferred (value.recast r)

def VariableDecl.recast (r : Recast) (decl : VariableDecl) : VariableDecl :=
  ⟨r.mark decl.mark, r.name decl.mark.id decl.name, decl.form.recast r⟩

def StructDecl.recast (r : Recast) (decl : StructDecl) : StructDecl :=
  ⟨r.mark decl.mark, decl.name, decl.fields.map (TypedName.recast r)⟩

mutual

def Stmt.recast (r : Recast) : Stmt → Stmt
  | .block b => .block (b.recast r)
  | .expression mark e => .expression (r.mark mark) (e.recast r)
  | .var decl => .var (decl.recast r)
  | .function decl => .function (decl.recast r)
  | .struct decl => .struct (decl.recast r)
  | .box decl => .box (decl.recast r)
  | .ifElse mark condition thenBody none =>
    .ifElse (r.mark mark) (condition.recast r) (r.enclose thenBody (thenBody.recast r)) none
  | .ifElse mark condition thenBody (some elseBody) =>
    .ifElse (r.mark mark) (condition.recast r) (r.enclose thenBody (thenBody.recast r))
      (some (r.enclose elseBody (elseBody.recast r)))
  | .while mark condition body =>
    .while (r.mark mark) (condition.recast r) (r.enclose body (body.recast r))
  | .return mark value => .return (r.mark mark) (value.map (Expr.recast r))

def Block.recast (r : Recast) : Block → Block
  | ⟨mark, body⟩ => ⟨r.mark mark, Stmt.recastAll r body⟩

def Stmt.recastAll (r : Recast) : List Stmt → List Stmt
  | [] => []
  | s :: rest => s.recast r :: Stmt.recastAll r rest

def FunctionDecl.recast (r : Recast) : FunctionDecl → FunctionDecl
  | ⟨mark, name, parameters, result, body⟩ =>
    ⟨r.mark mark, name, parameters.map (TypedName.recastParameter r),
      result.map (TypeExpr.recast r), body.recast r⟩

def BoxDecl.recast (r : Recast) : BoxDecl → BoxDecl
  | ⟨mark, name, members⟩ => ⟨r.mark mark, name, Member.recastAll r members⟩

def Member.recastAll (r : Recast) : List Member → List Member
  | [] => []
  | .attr decl :: rest => .attr (decl.recast r) :: Member.recastAll r rest
  | .meth decl :: rest => .meth (decl.recast r) :: Member.recastAll r rest

end

def Program.recast (r : Recast) (program : Program) : Program :=
  ⟨r.mark program.mark, Stmt.recastAll r program.body⟩

/-! ## Marks -/

variable {r : Recast}

@[simp]
theorem TypeExpr.mark_recast (type : TypeExpr) : (type.recast r).mark = r.mark type.mark := by
  cases type <;> rfl

@[simp]
theorem TypeExpr.id_recast (type : TypeExpr) : (type.recast r).id = type.id := by
  simp [TypeExpr.id]

@[simp]
theorem Expr.mark_inside (e : Expr) : (e.inside r).mark = r.mark e.mark := by
  cases e <;> rfl

@[simp]
theorem Expr.id_inside (e : Expr) : (e.inside r).id = e.id := by
  simp [Expr.id]

theorem Recast.span_wrap {mark : Mark} {e : Expr} (span : e.span = r.span mark.span) :
    (r.wrap mark e).span = r.span mark.span := by
  unfold wrap
  split
  · exact span
  · rfl

@[simp]
theorem Expr.span_recast (e : Expr) : (e.recast r).span = r.span e.span :=
  Recast.span_wrap (by simp [Expr.span])

theorem Expr.recastAll_eq (es : List Expr) : Expr.recastAll r es = es.map (Expr.recast r) := by
  induction es with
  | nil => rfl
  | cons e rest ih => rw [Expr.recastAll, List.map_cons, ih, Expr.recast]

@[simp]
theorem FunctionDecl.mark_recast (decl : FunctionDecl) :
    (decl.recast r).mark = r.mark decl.mark := by
  obtain ⟨mark, name, parameters, result, body⟩ := decl
  rfl

@[simp]
theorem FunctionDecl.name_recast (decl : FunctionDecl) : (decl.recast r).name = decl.name := by
  obtain ⟨mark, name, parameters, result, body⟩ := decl
  rfl

@[simp]
theorem FunctionDecl.parameters_recast (decl : FunctionDecl) :
    (decl.recast r).parameters = decl.parameters.map (TypedName.recastParameter r) := by
  obtain ⟨mark, name, parameters, result, body⟩ := decl
  rfl

@[simp]
theorem FunctionDecl.result_recast (decl : FunctionDecl) :
    (decl.recast r).result = decl.result.map (TypeExpr.recast r) := by
  obtain ⟨mark, name, parameters, result, body⟩ := decl
  rfl

@[simp]
theorem FunctionDecl.body_recast (decl : FunctionDecl) :
    (decl.recast r).body = decl.body.recast r := by
  obtain ⟨mark, name, parameters, result, body⟩ := decl
  rfl

@[simp]
theorem Block.mark_recast (b : Block) : (b.recast r).mark = r.mark b.mark := by
  obtain ⟨mark, body⟩ := b
  rfl

@[simp]
theorem Block.body_recast (b : Block) : (b.recast r).body = Stmt.recastAll r b.body := by
  obtain ⟨mark, body⟩ := b
  rfl

@[simp]
theorem BoxDecl.mark_recast (decl : BoxDecl) : (decl.recast r).mark = r.mark decl.mark := by
  obtain ⟨mark, name, members⟩ := decl
  rfl

@[simp]
theorem BoxDecl.name_recast (decl : BoxDecl) : (decl.recast r).name = decl.name := by
  obtain ⟨mark, name, members⟩ := decl
  rfl

@[simp]
theorem BoxDecl.members_recast (decl : BoxDecl) :
    (decl.recast r).members = Member.recastAll r decl.members := by
  obtain ⟨mark, name, members⟩ := decl
  rfl

@[simp]
theorem Stmt.mark_recast (s : Stmt) : (s.recast r).mark = r.mark s.mark := by
  cases s with
  | block b => exact Block.mark_recast b
  | function decl => exact FunctionDecl.mark_recast decl
  | box decl => exact BoxDecl.mark_recast decl
  | ifElse mark condition thenBody elseBody => cases elseBody <;> rfl
  | _ => rfl

@[simp]
theorem Stmt.id_recast (s : Stmt) : (s.recast r).id = s.id := by
  simp [Stmt.id]

theorem Stmt.recastAll_eq (body : List Stmt) :
    Stmt.recastAll r body = body.map (Stmt.recast r) := by
  induction body with
  | nil => rfl
  | cons s rest ih => rw [Stmt.recastAll, List.map_cons, ih]

/-- Parentheses aside, an expression is what it was. -/
theorem Expr.bare_recast (e : Expr) : (e.recast r).bare = e.bare.inside r := by
  have wrapped : ∀ (mark : Mark) (e : Expr), (r.wrap mark e).bare = e.bare := by
    intro mark e
    unfold Recast.wrap
    split <;> rfl
  rw [Expr.recast, wrapped]
  induction e using Expr.bare.induct with
  | case1 mark inner ih =>
    simp only [Expr.inside, Expr.bare, wrapped]
    exact ih
  | case2 e plain =>
    cases e with
    | paren mark inner => exact absurd rfl (plain mark inner)
    | _ => rfl

/-! ## Nothing is changed -/

section Unchanged

theorem TypeExpr.recast_none (type : TypeExpr) : type.recast .none = type := by
  induction type with
  | named mark name => rfl
  | array mark component ih => rw [TypeExpr.recast, ih]; rfl

mutual

theorem Expr.inside_none : ∀ e : Expr, e.inside .none = e
  | .array mark elements => by
    rw [Expr.inside, Expr.recastAll_none elements]
    rfl
  | .paren mark inner => by
    rw [Expr.inside, Recast.none_unwrapped.wrap, Expr.inside_none inner]
    rfl
  | .unary mark op operand => by
    rw [Expr.inside, Recast.none_unwrapped.wrap, Expr.inside_none operand]
    rfl
  | .binary mark op left right => by
    rw [Expr.inside, Recast.none_unwrapped.wrap, Recast.none_unwrapped.wrap,
      Expr.inside_none left, Expr.inside_none right]
    rfl
  | .assign mark target value => by
    rw [Expr.inside, Recast.none_unwrapped.wrap, Recast.none_unwrapped.wrap,
      Expr.inside_none target, Expr.inside_none value]
    rfl
  | .call mark callee given => by
    rw [Expr.inside, Recast.none_unwrapped.wrap, Expr.inside_none callee,
      Expr.recastAll_none given]
    rfl
  | .index mark owner place => by
    rw [Expr.inside, Recast.none_unwrapped.wrap, Recast.none_unwrapped.wrap,
      Expr.inside_none owner, Expr.inside_none place]
    rfl
  | .field mark receiver name => by
    rw [Expr.inside, Recast.none_unwrapped.wrap, Expr.inside_none receiver]
    rfl
  | .member mark receiver name => by
    rw [Expr.inside, Recast.none_unwrapped.wrap, Expr.inside_none receiver]
    rfl
  | .int _ _ | .float _ _ | .string _ _ | .bool _ _ | .null _ | .symbol _ _ | .constructor _ _
  | .create _ _ => rfl

theorem Expr.recastAll_none : ∀ es : List Expr, Expr.recastAll .none es = es
  | [] => rfl
  | e :: rest => by
    rw [Expr.recastAll, Recast.none_unwrapped.wrap, Expr.inside_none e, Expr.recastAll_none rest]

end

theorem Expr.recast_none (e : Expr) : e.recast .none = e := by
  rw [Expr.recast, Recast.none_unwrapped.wrap, Expr.inside_none]

theorem Expr.map_recast_none (value : Option Expr) : value.map (Expr.recast .none) = value := by
  cases value with
  | none => rfl
  | some e => rw [Option.map_some, Expr.recast_none]

theorem TypedName.map_recast_none (names : List TypedName) :
    names.map (TypedName.recast .none) = names ∧
      names.map (TypedName.recastParameter .none) = names := by
  have same : ∀ typed : TypedName, typed.recast .none = typed ∧
      typed.recastParameter .none = typed := by
    intro typed
    rw [TypedName.recast, TypedName.recastParameter, TypeExpr.recast_none]
    exact ⟨rfl, rfl⟩
  constructor
  · rw [List.map_congr_left fun typed _ => (same typed).1, List.map_id']
  · rw [List.map_congr_left fun typed _ => (same typed).2, List.map_id']

theorem VariableDecl.recast_none (decl : VariableDecl) : decl.recast .none = decl := by
  obtain ⟨mark, name, form⟩ := decl
  cases form with
  | typed type value =>
    rw [VariableDecl.recast, VariableForm.recast, TypeExpr.recast_none, Expr.map_recast_none]
    rfl
  | inferred value =>
    rw [VariableDecl.recast, VariableForm.recast, Expr.recast_none]
    rfl

mutual

theorem Stmt.recast_none : ∀ s : Stmt, s.recast .none = s
  | .block b => by rw [Stmt.recast, Block.recast_none b]
  | .expression mark e => by
    rw [Stmt.recast, Expr.recast_none]
    rfl
  | .var decl => by rw [Stmt.recast, VariableDecl.recast_none]
  | .function decl => by rw [Stmt.recast, FunctionDecl.recast_none decl]
  | .struct decl => by
    rw [Stmt.recast, StructDecl.recast, (TypedName.map_recast_none _).1]
    rfl
  | .box decl => by rw [Stmt.recast, BoxDecl.recast_none decl]
  | .ifElse mark condition thenBody none => by
    rw [Stmt.recast, Expr.recast_none, Recast.none_unwrapped.enclose, Stmt.recast_none thenBody]
    rfl
  | .ifElse mark condition thenBody (some elseBody) => by
    rw [Stmt.recast, Expr.recast_none, Recast.none_unwrapped.enclose,
      Recast.none_unwrapped.enclose, Stmt.recast_none thenBody, Stmt.recast_none elseBody]
    rfl
  | .while mark condition body => by
    rw [Stmt.recast, Expr.recast_none, Recast.none_unwrapped.enclose, Stmt.recast_none body]
    rfl
  | .return mark value => by
    rw [Stmt.recast, Expr.map_recast_none]
    rfl

theorem Block.recast_none : ∀ b : Block, b.recast .none = b
  | ⟨mark, body⟩ => by
    rw [Block.recast, Stmt.recastAll_none body]
    rfl

theorem Stmt.recastAll_none : ∀ body : List Stmt, Stmt.recastAll .none body = body
  | [] => rfl
  | s :: rest => by rw [Stmt.recastAll, Stmt.recast_none s, Stmt.recastAll_none rest]

theorem FunctionDecl.recast_none : ∀ decl : FunctionDecl, decl.recast .none = decl
  | ⟨mark, name, parameters, result, body⟩ => by
    rw [FunctionDecl.recast, (TypedName.map_recast_none _).2, Block.recast_none body]
    cases result with
    | none => rfl
    | some type =>
      rw [Option.map_some, TypeExpr.recast_none]
      rfl

theorem BoxDecl.recast_none : ∀ decl : BoxDecl, decl.recast .none = decl
  | ⟨mark, name, members⟩ => by
    rw [BoxDecl.recast, Member.recastAll_none members]
    rfl

theorem Member.recastAll_none : ∀ members : List Member, Member.recastAll .none members = members
  | [] => rfl
  | .attr decl :: rest => by
    rw [Member.recastAll, Member.recastAll_none rest, TypedName.recast, TypeExpr.recast_none]
    rfl
  | .meth decl :: rest => by
    rw [Member.recastAll, Member.recastAll_none rest, FunctionDecl.recast_none decl]

end

end Unchanged

/-! ## Other names -/

/-- The name that a recast may change at a node: that of a variable or parameter, or a symbol. -/
def Node.renames? : Node → Option String
  | .expr (.symbol _ called) => some called
  | .name typed => some typed.name
  | .stmt (.var decl) => some decl.name
  | _ => none

/-- The recast in which variables and parameters are called otherwise. -/
def Recast.calling (r : Recast) (name : NodeId → String → String) : Recast :=
  { r with name := name }

section Names

variable {called : NodeId → String → String} {nodes : List Node}
  (agree : ∀ node ∈ nodes, ∀ name, node.renames? = some name →
    called node.id name = r.name node.id name)

theorem TypeExpr.recast_calling (called : NodeId → String → String) (type : TypeExpr) :
    type.recast (r.calling called) = type.recast r := by
  induction type with
  | named mark name => rfl
  | array mark component ih =>
    rw [TypeExpr.recast, TypeExpr.recast, ih]
    rfl

include agree

set_option linter.unusedSectionVars false in
mutual

theorem Expr.inside_calling : ∀ e : Expr, e.nodes ⊆ nodes →
    e.inside (r.calling called) = e.inside r
  | .symbol mark name, inside => by
    have same := agree (.expr (.symbol mark name)) (inside List.mem_cons_self) name rfl
    exact congrArg (Expr.symbol (r.mark mark)) same
  | .array mark elements, inside => by
    simp only [Expr.nodes, List.append_subset] at inside
    rw [Expr.inside, Expr.inside, Expr.recastAll_calling elements inside.1]
    rfl
  | .paren mark inner, inside => by
    simp only [Expr.nodes, List.append_subset] at inside
    rw [Expr.inside, Expr.inside, Expr.inside_calling inner inside.1]
    rfl
  | .unary mark op operand, inside => by
    simp only [Expr.nodes, List.append_subset] at inside
    rw [Expr.inside, Expr.inside, Expr.inside_calling operand inside.1]
    rfl
  | .binary mark op left right, inside => by
    simp only [Expr.nodes, List.append_subset] at inside
    rw [Expr.inside, Expr.inside, Expr.inside_calling left inside.1.1,
      Expr.inside_calling right inside.1.2]
    rfl
  | .assign mark target value, inside => by
    simp only [Expr.nodes, List.append_subset] at inside
    rw [Expr.inside, Expr.inside, Expr.inside_calling target inside.1.1,
      Expr.inside_calling value inside.1.2]
    rfl
  | .call mark callee given, inside => by
    simp only [Expr.nodes, List.append_subset] at inside
    rw [Expr.inside, Expr.inside, Expr.inside_calling callee inside.1.1,
      Expr.recastAll_calling given inside.1.2]
    rfl
  | .index mark owner place, inside => by
    simp only [Expr.nodes, List.append_subset] at inside
    rw [Expr.inside, Expr.inside, Expr.inside_calling owner inside.1.1,
      Expr.inside_calling place inside.1.2]
    rfl
  | .field mark receiver name, inside => by
    simp only [Expr.nodes, List.append_subset] at inside
    rw [Expr.inside, Expr.inside, Expr.inside_calling receiver inside.1]
    rfl
  | .member mark receiver name, inside => by
    simp only [Expr.nodes, List.append_subset] at inside
    rw [Expr.inside, Expr.inside, Expr.inside_calling receiver inside.1]
    rfl
  | .int _ _, _ | .float _ _, _ | .string _ _, _ | .bool _ _, _ | .null _, _
  | .constructor _ _, _ | .create _ _, _ => rfl

theorem Expr.recastAll_calling : ∀ es : List Expr, Expr.nodesOfAll es ⊆ nodes →
    Expr.recastAll (r.calling called) es = Expr.recastAll r es
  | [], _ => rfl
  | e :: rest, inside => by
    simp only [Expr.nodesOfAll, List.append_subset] at inside
    rw [Expr.recastAll, Expr.recastAll, Expr.inside_calling e inside.1,
      Expr.recastAll_calling rest inside.2]
    rfl

end

theorem Expr.recast_calling {e : Expr} (inside : e.nodes ⊆ nodes) :
    e.recast (r.calling called) = e.recast r := by
  rw [Expr.recast, Expr.recast, Expr.inside_calling agree e inside]
  rfl

theorem TypedName.recastParameter_calling {names : List TypedName}
    (inside : names.flatMap TypedName.nodes ⊆ nodes) :
    names.map (TypedName.recastParameter (r.calling called)) =
      names.map (TypedName.recastParameter r) := by
  refine List.map_congr_left fun typed member => ?_
  have own : .name typed ∈ nodes := inside (List.mem_flatMap.mpr
    ⟨typed, member, List.mem_append_right _ List.mem_cons_self⟩)
  have same : called typed.mark.id typed.name = r.name typed.mark.id typed.name :=
    agree _ own _ rfl
  rw [TypedName.recastParameter, TypedName.recastParameter, TypeExpr.recast_calling]
  exact congrArg (TypedName.mk (r.mark typed.mark) · (typed.type.recast r)) same

omit agree in
theorem TypedName.recast_calling (typed : TypedName) :
    typed.recast (r.calling called) = typed.recast r := by
  rw [TypedName.recast, TypedName.recast, TypeExpr.recast_calling]
  rfl

theorem VariableDecl.recast_calling {decl : VariableDecl}
    (inside : (Stmt.var decl).nodes ⊆ nodes) :
    decl.recast (r.calling called) = decl.recast r := by
  simp only [Stmt.nodes, List.append_subset] at inside
  have same : called decl.mark.id decl.name = r.name decl.mark.id decl.name :=
    agree _ (inside.2 List.mem_cons_self) _ rfl
  have form : decl.form.recast (r.calling called) = decl.form.recast r := by
    obtain ⟨mark, name, _ | _⟩ := decl
    · rename_i type value
      cases value with
      | none => exact congrArg (VariableForm.typed · none) (TypeExpr.recast_calling called type)
      | some value =>
        simp only [VariableForm.nodes, List.append_subset] at inside
        simp only [VariableForm.recast, TypeExpr.recast_calling, Option.map_some,
          Expr.recast_calling agree inside.1.2]
    · rename_i value
      exact congrArg VariableForm.inferred (Expr.recast_calling agree inside.1)
  rw [VariableDecl.recast, VariableDecl.recast, form]
  exact congrArg (VariableDecl.mk (r.mark decl.mark) · (decl.form.recast r)) same

set_option linter.unusedSectionVars false in
mutual

theorem Stmt.recast_calling : ∀ s : Stmt, s.nodes ⊆ nodes →
    s.recast (r.calling called) = s.recast r
  | .block b, inside => by
    rw [Stmt.recast, Stmt.recast, Block.recast_calling b inside]
  | .expression mark e, inside => by
    simp only [Stmt.nodes, List.append_subset] at inside
    rw [Stmt.recast, Stmt.recast, Expr.recast_calling agree inside.1]
    rfl
  | .var decl, inside => by
    rw [Stmt.recast, Stmt.recast, VariableDecl.recast_calling agree inside]
  | .function decl, inside => by
    simp only [Stmt.nodes, List.append_subset] at inside
    rw [Stmt.recast, Stmt.recast, FunctionDecl.recast_calling decl inside.1]
  | .struct decl, _ => by
    rw [Stmt.recast, Stmt.recast, StructDecl.recast, StructDecl.recast,
      List.map_congr_left fun typed _ => TypedName.recast_calling typed]
    rfl
  | .box decl, inside => by
    simp only [Stmt.nodes, List.append_subset] at inside
    rw [Stmt.recast, Stmt.recast, BoxDecl.recast_calling decl inside.1]
  | .ifElse mark condition thenBody none, inside => by
    simp only [Stmt.nodes, List.append_subset] at inside
    rw [Stmt.recast, Stmt.recast, Expr.recast_calling agree inside.1.1,
      Stmt.recast_calling thenBody inside.1.2]
    rfl
  | .ifElse mark condition thenBody (some elseBody), inside => by
    simp only [Stmt.nodes, List.append_subset] at inside
    rw [Stmt.recast, Stmt.recast, Expr.recast_calling agree inside.1.1.1,
      Stmt.recast_calling thenBody inside.1.1.2, Stmt.recast_calling elseBody inside.1.2]
    rfl
  | .while mark condition body, inside => by
    simp only [Stmt.nodes, List.append_subset] at inside
    rw [Stmt.recast, Stmt.recast, Expr.recast_calling agree inside.1.1,
      Stmt.recast_calling body inside.1.2]
    rfl
  | .return mark none, _ => rfl
  | .return mark (some value), inside => by
    simp only [Stmt.nodes, List.append_subset] at inside
    rw [Stmt.recast, Stmt.recast, Option.map_some, Option.map_some,
      Expr.recast_calling agree inside.1]
    rfl

theorem Block.recast_calling : ∀ b : Block, b.nodes ⊆ nodes →
    b.recast (r.calling called) = b.recast r
  | ⟨mark, body⟩, inside => by
    simp only [Block.nodes, List.append_subset] at inside
    rw [Block.recast, Block.recast, Stmt.recastAll_calling body inside.1]
    rfl

theorem Stmt.recastAll_calling : ∀ body : List Stmt, Stmt.nodesOfAll body ⊆ nodes →
    Stmt.recastAll (r.calling called) body = Stmt.recastAll r body
  | [], _ => rfl
  | s :: rest, inside => by
    simp only [Stmt.nodesOfAll, List.append_subset] at inside
    rw [Stmt.recastAll, Stmt.recastAll, Stmt.recast_calling s inside.1,
      Stmt.recastAll_calling rest inside.2]

theorem FunctionDecl.recast_calling : ∀ decl : FunctionDecl, decl.nodes ⊆ nodes →
    decl.recast (r.calling called) = decl.recast r
  | ⟨mark, name, parameters, result, body⟩, inside => by
    simp only [FunctionDecl.nodes, List.append_subset] at inside
    rw [FunctionDecl.recast, FunctionDecl.recast,
      TypedName.recastParameter_calling agree inside.1.1, Block.recast_calling body inside.2]
    cases result with
    | none => rfl
    | some type =>
      rw [Option.map_some, Option.map_some, TypeExpr.recast_calling]
      rfl

theorem BoxDecl.recast_calling : ∀ decl : BoxDecl, decl.nodes ⊆ nodes →
    decl.recast (r.calling called) = decl.recast r
  | ⟨mark, name, members⟩, inside => by
    rw [BoxDecl.nodes] at inside
    rw [BoxDecl.recast, BoxDecl.recast, Member.recastAll_calling members inside]
    rfl

theorem Member.recastAll_calling : ∀ members : List Member, Member.nodesOfAll members ⊆ nodes →
    Member.recastAll (r.calling called) members = Member.recastAll r members
  | [], _ => rfl
  | .attr decl :: rest, inside => by
    simp only [Member.nodesOfAll, List.append_subset] at inside
    rw [Member.recastAll, Member.recastAll, TypedName.recast_calling,
      Member.recastAll_calling rest inside.2]
  | .meth decl :: rest, inside => by
    simp only [Member.nodesOfAll, List.append_subset] at inside
    rw [Member.recastAll, Member.recastAll, FunctionDecl.recast_calling decl inside.1.1,
      Member.recastAll_calling rest inside.2]

end

end Names

end BoxScript
