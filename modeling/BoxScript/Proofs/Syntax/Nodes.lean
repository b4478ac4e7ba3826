import BoxScript.Proofs.Syntax.Identities

/-!
# The nodes of a tree

The nodes of a program are its annotations and expressions, its parameters, fields and attributes,
its statements, its blocks and its methods. They are listed in the order in which they are complete,
so their identities are those of the tree (`Stmt.map_id_nodesOfAll`): the lists leave out none.
-/

set_option autoImplicit false

namespace BoxScript

/-- A node of a program. A block that is a statement, or the body of a function, is a block; a
parameter, a field or an attribute is a name with its written type. -/
inductive Node
  | type (written : TypeExpr)
  | expr (e : Expr)
  | name (typed : TypedName)
  | stmt (s : Stmt)
  | block (b : Block)
  | method (decl : FunctionDecl)

def Node.id : Node → NodeId
  | .type written => written.id
  | .expr e => e.id
  | .name typed => typed.mark.id
  | .stmt s => s.id
  | .block b => b.mark.id
  | .method decl => decl.mark.id

def Node.mark : Node → Mark
  | .type written => written.mark
  | .expr e => e.mark
  | .name typed => typed.mark
  | .stmt s => s.mark
  | .block b => b.mark
  | .method decl => decl.mark

theorem Node.id_eq (node : Node) : node.id = node.mark.id := by
  cases node <;> rfl

def TypeExpr.nodes : TypeExpr → List Node
  | .named mark name => [.type (.named mark name)]
  | .array mark component => component.nodes ++ [.type (.array mark component)]

mutual

def Expr.nodes : Expr → List Node
  | .array mark elements => Expr.nodesOfAll elements ++ [.expr (.array mark elements)]
  | .paren mark inner => inner.nodes ++ [.expr (.paren mark inner)]
  | .unary mark op operand => operand.nodes ++ [.expr (.unary mark op operand)]
  | .binary mark op left right => left.nodes ++ right.nodes ++ [.expr (.binary mark op left right)]
  | .assign mark target value => target.nodes ++ value.nodes ++ [.expr (.assign mark target value)]
  | .call mark callee given =>
    callee.nodes ++ Expr.nodesOfAll given ++ [.expr (.call mark callee given)]
  | .index mark owner place => owner.nodes ++ place.nodes ++ [.expr (.index mark owner place)]
  | .field mark receiver name => receiver.nodes ++ [.expr (.field mark receiver name)]
  | .member mark receiver name => receiver.nodes ++ [.expr (.member mark receiver name)]
  | e => [.expr e]

def Expr.nodesOfAll : List Expr → List Node
  | [] => []
  | e :: rest => e.nodes ++ Expr.nodesOfAll rest

end

/-- The expressions that an expression is made of. -/
def Expr.parts : Expr → List Expr
  | .array _ elements => elements
  | .paren _ inner => [inner]
  | .unary _ _ operand => [operand]
  | .binary _ _ left right => [left, right]
  | .assign _ target value => [target, value]
  | .call _ callee given => callee :: given
  | .index _ owner place => [owner, place]
  | .field _ receiver _ => [receiver]
  | .member _ receiver _ => [receiver]
  | _ => []

def TypedName.nodes (name : TypedName) : List Node := name.type.nodes ++ [.name name]

def VariableForm.nodes : VariableForm → List Node
  | .typed type none => type.nodes
  | .typed type (some value) => type.nodes ++ value.nodes
  | .inferred value => value.nodes

mutual

def Stmt.nodes : Stmt → List Node
  | .block b => b.nodes
  | .expression mark e => e.nodes ++ [.stmt (.expression mark e)]
  | .var decl => decl.form.nodes ++ [.stmt (.var decl)]
  | .function decl => decl.nodes ++ [.stmt (.function decl)]
  | .struct decl => decl.fields.flatMap TypedName.nodes ++ [.stmt (.struct decl)]
  | .box decl => decl.nodes ++ [.stmt (.box decl)]
  | .ifElse mark condition thenBody none =>
    condition.nodes ++ thenBody.nodes ++ [.stmt (.ifElse mark condition thenBody none)]
  | .ifElse mark condition thenBody (some elseBody) =>
    condition.nodes ++ thenBody.nodes ++ elseBody.nodes ++
      [.stmt (.ifElse mark condition thenBody (some elseBody))]
  | .while mark condition body =>
    condition.nodes ++ body.nodes ++ [.stmt (.while mark condition body)]
  | .return mark none => [.stmt (.return mark none)]
  | .return mark (some value) => value.nodes ++ [.stmt (.return mark (some value))]

def Block.nodes : Block → List Node
  | ⟨mark, body⟩ => Stmt.nodesOfAll body ++ [.block ⟨mark, body⟩]

def Stmt.nodesOfAll : List Stmt → List Node
  | [] => []
  | s :: rest => s.nodes ++ Stmt.nodesOfAll rest

/-- The nodes inside a function or method, without its own. -/
def FunctionDecl.nodes : FunctionDecl → List Node
  | ⟨_, _, parameters, result, body⟩ =>
    parameters.flatMap TypedName.nodes ++ (result.map TypeExpr.nodes).getD [] ++ body.nodes

/-- The nodes inside a box, without its own. -/
def BoxDecl.nodes : BoxDecl → List Node
  | ⟨_, _, members⟩ => Member.nodesOfAll members

def Member.nodesOfAll : List Member → List Node
  | [] => []
  | .attr decl :: rest => decl.nodes ++ Member.nodesOfAll rest
  | .meth decl :: rest => decl.nodes ++ [.method decl] ++ Member.nodesOfAll rest

end

theorem Expr.mem_nodes_self (e : Expr) : .expr e ∈ e.nodes := by
  cases e <;> simp [nodes]

theorem Expr.nodes_bare_subset (e : Expr) : e.bare.nodes ⊆ e.nodes := by
  fun_induction Expr.bare e with
  | case1 mark inner ih => exact fun node member => List.mem_append_left _ (ih member)
  | case2 e _ => exact List.Subset.refl _

theorem Stmt.nodes_subset_nodesOfAll {s : Stmt} {body : List Stmt} (member : s ∈ body) :
    s.nodes ⊆ Stmt.nodesOfAll body := by
  induction body with
  | nil => cases member
  | cons first rest ih =>
    rw [nodesOfAll]
    rcases List.mem_cons.mp member with rfl | member
    · exact List.subset_append_left _ _
    · exact List.Subset.trans (ih member) (List.subset_append_right _ _)

/-! ## Their identities -/

theorem TypeExpr.map_id_nodes (type : TypeExpr) : type.nodes.map Node.id = type.ids := by
  induction type with
  | named mark name => rfl
  | array mark component ih => simp [nodes, ids, ih, Node.id, TypeExpr.id, TypeExpr.mark]

mutual

theorem Expr.map_id_nodes : ∀ e : Expr, e.nodes.map Node.id = e.ids
  | .array mark elements => by
    simp [Expr.nodes, Expr.ids, Expr.map_id_nodesOfAll elements, Node.id, Expr.id, Expr.mark]
  | .paren mark inner => by
    simp [Expr.nodes, Expr.ids, Expr.map_id_nodes inner, Node.id, Expr.id, Expr.mark]
  | .unary mark op operand => by
    simp [Expr.nodes, Expr.ids, Expr.map_id_nodes operand, Node.id, Expr.id, Expr.mark]
  | .binary mark op left right => by
    simp [Expr.nodes, Expr.ids, Expr.map_id_nodes left, Expr.map_id_nodes right, Node.id, Expr.id,
      Expr.mark]
  | .assign mark target value => by
    simp [Expr.nodes, Expr.ids, Expr.map_id_nodes target, Expr.map_id_nodes value, Node.id,
      Expr.id, Expr.mark]
  | .call mark callee given => by
    simp [Expr.nodes, Expr.ids, Expr.map_id_nodes callee, Expr.map_id_nodesOfAll given, Node.id,
      Expr.id, Expr.mark]
  | .index mark owner place => by
    simp [Expr.nodes, Expr.ids, Expr.map_id_nodes owner, Expr.map_id_nodes place, Node.id,
      Expr.id, Expr.mark]
  | .field mark receiver name => by
    simp [Expr.nodes, Expr.ids, Expr.map_id_nodes receiver, Node.id, Expr.id, Expr.mark]
  | .member mark receiver name => by
    simp [Expr.nodes, Expr.ids, Expr.map_id_nodes receiver, Node.id, Expr.id, Expr.mark]
  | .int _ _ | .float _ _ | .string _ _ | .bool _ _ | .null _ | .symbol _ _ | .constructor _ _
  | .create _ _ => rfl

theorem Expr.map_id_nodesOfAll : ∀ es : List Expr,
    (Expr.nodesOfAll es).map Node.id = Expr.idsOfAll es
  | [] => rfl
  | e :: rest => by
    simp [Expr.nodesOfAll, Expr.idsOfAll, Expr.map_id_nodes e, Expr.map_id_nodesOfAll rest]

end

theorem TypedName.map_id_nodes (name : TypedName) : name.nodes.map Node.id = name.ids := by
  simp [nodes, ids, TypeExpr.map_id_nodes, Node.id]

theorem TypedName.map_id_flatMap_nodes (names : List TypedName) :
    (names.flatMap TypedName.nodes).map Node.id = names.flatMap TypedName.ids := by
  induction names with
  | nil => rfl
  | cons name rest ih => simp [TypedName.map_id_nodes, ih]

theorem VariableForm.map_id_nodes (form : VariableForm) : form.nodes.map Node.id = form.ids := by
  cases form with
  | inferred value => exact Expr.map_id_nodes value
  | typed type value =>
    cases value with
    | none => exact TypeExpr.map_id_nodes type
    | some value => simp [nodes, ids, TypeExpr.map_id_nodes, Expr.map_id_nodes]

mutual

theorem Stmt.map_id_nodes : ∀ s : Stmt, s.nodes.map Node.id = s.ids
  | .block b => Block.map_id_nodes b
  | .expression mark e => by
    simp [Stmt.nodes, Stmt.ids, Expr.map_id_nodes, Node.id, Stmt.id, Stmt.mark]
  | .var decl => by
    simp [Stmt.nodes, Stmt.ids, VariableDecl.ids, VariableForm.map_id_nodes, Node.id, Stmt.id,
      Stmt.mark]
  | .function decl => by
    simp [Stmt.nodes, Stmt.ids, FunctionDecl.map_id_nodes decl, Node.id, Stmt.id, Stmt.mark]
  | .struct decl => by
    simp [Stmt.nodes, Stmt.ids, StructDecl.ids, TypedName.map_id_flatMap_nodes, Node.id, Stmt.id,
      Stmt.mark]
  | .box decl => by
    simp [Stmt.nodes, Stmt.ids, BoxDecl.map_id_nodes decl, Node.id, Stmt.id, Stmt.mark]
  | .ifElse mark condition thenBody none => by
    simp [Stmt.nodes, Stmt.ids, Expr.map_id_nodes, Stmt.map_id_nodes thenBody, Node.id, Stmt.id,
      Stmt.mark]
  | .ifElse mark condition thenBody (some elseBody) => by
    simp [Stmt.nodes, Stmt.ids, Expr.map_id_nodes, Stmt.map_id_nodes thenBody,
      Stmt.map_id_nodes elseBody, Node.id, Stmt.id, Stmt.mark]
  | .while mark condition body => by
    simp [Stmt.nodes, Stmt.ids, Expr.map_id_nodes, Stmt.map_id_nodes body, Node.id, Stmt.id,
      Stmt.mark]
  | .return mark none => rfl
  | .return mark (some value) => by
    simp [Stmt.nodes, Stmt.ids, Expr.map_id_nodes, Node.id, Stmt.id, Stmt.mark]

theorem Block.map_id_nodes : ∀ b : Block, b.nodes.map Node.id = b.ids
  | ⟨mark, body⟩ => by simp [Block.nodes, Block.ids, Stmt.map_id_nodesOfAll body, Node.id]

theorem Stmt.map_id_nodesOfAll : ∀ body : List Stmt,
    (Stmt.nodesOfAll body).map Node.id = Stmt.idsOfAll body
  | [] => rfl
  | s :: rest => by
    simp [Stmt.nodesOfAll, Stmt.idsOfAll, Stmt.map_id_nodes s, Stmt.map_id_nodesOfAll rest]

theorem FunctionDecl.map_id_nodes : ∀ decl : FunctionDecl,
    decl.nodes.map Node.id ++ [decl.mark.id] = decl.ids
  | ⟨mark, name, parameters, result, body⟩ => by
    cases result <;>
      simp [FunctionDecl.nodes, FunctionDecl.ids, TypedName.map_id_flatMap_nodes,
        TypeExpr.map_id_nodes, Block.map_id_nodes body]

theorem BoxDecl.map_id_nodes : ∀ decl : BoxDecl,
    decl.nodes.map Node.id ++ [decl.mark.id] = decl.ids
  | ⟨mark, name, members⟩ => by
    simp [BoxDecl.nodes, BoxDecl.ids, Member.map_id_nodesOfAll members]

theorem Member.map_id_nodesOfAll : ∀ members : List Member,
    (Member.nodesOfAll members).map Node.id = Member.idsOfAll members
  | [] => rfl
  | .attr decl :: rest => by
    simp [Member.nodesOfAll, Member.idsOfAll, TypedName.map_id_nodes,
      Member.map_id_nodesOfAll rest]
  | .meth decl :: rest => by
    rw [Member.nodesOfAll, Member.idsOfAll, List.map_append, List.map_append,
      Member.map_id_nodesOfAll rest, ← FunctionDecl.map_id_nodes decl]
    rfl

end

end BoxScript
