import BoxScript.Proofs.Syntax.Nodes
import BoxScript.Token.Lexer

/-!
# Nodes in post-order

Right below each node of a tree are its children, in the order of the text (`Node.children`). The
list of the nodes of a program is in post-order (`Stmt.postorder_nodesOfAll`): each node comes right
after all that is below it, and what is below its first child comes first.

The parser counts the nodes of a program in this order, from one on, and the root is none of them
(`Program.numbered_in_postorder`). So no two nodes have the same identity, no identity is left out,
and a node has a greater one than all nodes below it.
-/

set_option autoImplicit false

namespace BoxScript

/-! ## What is right below a node -/

/-- The node that a statement is. -/
def Stmt.node : Stmt → Node
  | .block b => .block b
  | s => .stmt s

/-- The node that a member of a box is. -/
def Member.node : Member → Node
  | .attr decl => .name decl
  | .meth decl => .method decl

def VariableForm.children : VariableForm → List Node
  | .typed type value => .type type :: (value.map Node.expr).toList
  | .inferred value => [.expr value]

def FunctionDecl.children (decl : FunctionDecl) : List Node :=
  decl.parameters.map .name ++ (decl.result.map Node.type).toList ++ [.block decl.body]

def Stmt.children : Stmt → List Node
  | .block b => b.body.map Stmt.node
  | .expression _ value => [.expr value]
  | .var decl => decl.form.children
  | .function decl => decl.children
  | .struct decl => decl.fields.map .name
  | .box decl => decl.members.map Member.node
  | .ifElse _ condition thenBody elseBody =>
    .expr condition :: thenBody.node :: (elseBody.map Stmt.node).toList
  | .while _ condition body => [.expr condition, body.node]
  | .return _ value => (value.map Node.expr).toList

namespace Node

/-- The nodes right below a node, in the order of the text. -/
def children : Node → List Node
  | .type (.named _ _) => []
  | .type (.array _ component) => [.type component]
  | .expr e => e.parts.map .expr
  | .name typed => [.type typed.type]
  | .stmt s => s.children
  | .block b => b.body.map Stmt.node
  | .method decl => decl.children

/-- Whether the first node is below the second one. -/
inductive Below : Node → Node → Prop
  | child {lower upper : Node} (member : lower ∈ upper.children) : Below lower upper
  | further {lower middle upper : Node} (member : middle ∈ upper.children)
      (below : Below lower middle) : Below lower upper

/-- Some nodes and all nodes below them, in post-order. -/
inductive Postorder : List Node → List Node → Prop
  | nil : Postorder [] []
  | cons {node : Node} {rest inner others : List Node} (inside : Postorder node.children inner)
      (after : Postorder rest others) : Postorder (node :: rest) (inner ++ node :: others)

variable {roots more nodes others : List Node} {node lower : Node}

theorem Postorder.single (inside : Postorder node.children nodes) :
    Postorder [node] (nodes ++ [node]) := .cons inside .nil

theorem Postorder.leaf (none : node.children = []) : Postorder [node] [node] := by
  have inside : Postorder node.children [] := none ▸ .nil
  exact .single inside

theorem Postorder.append (first : Postorder roots nodes) (second : Postorder more others) :
    Postorder (roots ++ more) (nodes ++ others) := by
  induction first with
  | nil => exact second
  | cons inside _ _ ih =>
    rw [List.cons_append, List.append_assoc, List.cons_append]
    exact .cons inside ih

end Node

open Node

/-! ## The lists of nodes -/

theorem TypeExpr.postorder_nodes (type : TypeExpr) : Postorder [.type type] type.nodes := by
  induction type with
  | named mark name => exact .leaf rfl
  | array mark component ih => exact .single ih

mutual

theorem Expr.postorder_nodes : ∀ e : Expr, Postorder [.expr e] e.nodes
  | .array _ elements => .single (Expr.postorder_nodesOfAll elements)
  | .paren _ inner | .unary _ _ inner | .field _ inner _ | .member _ inner _ =>
    .single inner.postorder_nodes
  | .binary _ _ left right | .assign _ left right | .index _ left right =>
    .single (left.postorder_nodes.append right.postorder_nodes)
  | .call _ callee given =>
    .single (callee.postorder_nodes.append (Expr.postorder_nodesOfAll given))
  | .int _ _ | .float _ _ | .string _ _ | .bool _ _ | .null _ | .symbol _ _ | .constructor _ _
  | .create _ _ => .leaf rfl

theorem Expr.postorder_nodesOfAll : ∀ es : List Expr,
    Postorder (es.map .expr) (Expr.nodesOfAll es)
  | [] => .nil
  | e :: rest => e.postorder_nodes.append (Expr.postorder_nodesOfAll rest)

end

theorem TypedName.postorder_nodes (name : TypedName) : Postorder [.name name] name.nodes :=
  .single name.type.postorder_nodes

theorem TypedName.postorder_flatMap_nodes (names : List TypedName) :
    Postorder (names.map .name) (names.flatMap TypedName.nodes) := by
  induction names with
  | nil => exact .nil
  | cons name rest ih => exact name.postorder_nodes.append ih

theorem VariableForm.postorder_nodes (form : VariableForm) :
    Postorder form.children form.nodes := by
  cases form with
  | inferred value => exact value.postorder_nodes
  | typed type value =>
    cases value with
    | none => exact type.postorder_nodes
    | some value => exact type.postorder_nodes.append value.postorder_nodes

mutual

theorem Stmt.postorder_nodes : ∀ s : Stmt, Postorder [s.node] s.nodes
  | .block b => b.postorder_nodes
  | .expression _ e => .single e.postorder_nodes
  | .var decl => .single decl.form.postorder_nodes
  | .function decl => .single decl.postorder_nodes
  | .struct decl => .single (TypedName.postorder_flatMap_nodes decl.fields)
  | .box decl => .single decl.postorder_nodes
  | .ifElse _ condition thenBody none =>
    .single (condition.postorder_nodes.append thenBody.postorder_nodes)
  | .ifElse _ condition thenBody (some elseBody) =>
    .single ((condition.postorder_nodes.append thenBody.postorder_nodes).append
      elseBody.postorder_nodes)
  | .while _ condition body => .single (condition.postorder_nodes.append body.postorder_nodes)
  | .return _ none => .leaf rfl
  | .return _ (some value) => .single value.postorder_nodes

theorem Block.postorder_nodes : ∀ b : Block, Postorder [.block b] b.nodes
  | ⟨_, body⟩ => .single (Stmt.postorder_nodesOfAll body)

theorem Stmt.postorder_nodesOfAll : ∀ body : List Stmt,
    Postorder (body.map Stmt.node) (Stmt.nodesOfAll body)
  | [] => .nil
  | s :: rest => s.postorder_nodes.append (Stmt.postorder_nodesOfAll rest)

theorem FunctionDecl.postorder_nodes : ∀ decl : FunctionDecl,
    Postorder decl.children decl.nodes
  | ⟨_, _, parameters, none, body⟩ => by
    have inside := (TypedName.postorder_flatMap_nodes parameters).append body.postorder_nodes
    simpa [FunctionDecl.children, FunctionDecl.nodes] using inside
  | ⟨_, _, parameters, some result, body⟩ =>
    ((TypedName.postorder_flatMap_nodes parameters).append result.postorder_nodes).append
      body.postorder_nodes

theorem BoxDecl.postorder_nodes : ∀ decl : BoxDecl,
    Postorder (decl.members.map Member.node) decl.nodes
  | ⟨_, _, members⟩ => Member.postorder_nodesOfAll members

theorem Member.postorder_nodesOfAll : ∀ members : List Member,
    Postorder (members.map Member.node) (Member.nodesOfAll members)
  | [] => .nil
  | .attr decl :: rest => decl.postorder_nodes.append (Member.postorder_nodesOfAll rest)
  | .meth decl :: rest =>
    have own : Postorder [.method decl] (decl.nodes ++ [.method decl]) :=
      .single decl.postorder_nodes
    own.append (Member.postorder_nodesOfAll rest)

end

/-! ## What is below a node is listed before it -/

namespace Node

variable {roots nodes : List Node} {node lower : Node}

theorem Postorder.roots_subset (postorder : Postorder roots nodes) : roots ⊆ nodes := by
  induction postorder with
  | nil => exact List.Subset.refl []
  | @cons node rest inner others _ _ _ ih =>
    refine List.cons_subset.mpr ⟨by simp, fun other member => ?_⟩
    exact List.mem_append_right inner (List.mem_cons_of_mem node (ih member))

/-- A child is listed before its parent. -/
theorem Postorder.mem_of_child {before : Node → Node → Prop} (postorder : Postorder roots nodes)
    (listed : nodes.Pairwise before) (member : node ∈ nodes) (child : lower ∈ node.children) :
    lower ∈ nodes ∧ before lower node := by
  induction postorder with
  | nil => cases member
  | @cons parent rest inner others inside _ ihInside ihAfter =>
    obtain ⟨within, later, across⟩ := List.pairwise_append.mp listed
    obtain ⟨_, after⟩ := List.pairwise_cons.mp later
    rcases List.mem_append.mp member with here | here
    · obtain ⟨found, first⟩ := ihInside within here
      exact ⟨List.mem_append_left _ found, first⟩
    rcases List.mem_cons.mp here with rfl | here
    · have found := inside.roots_subset child
      exact ⟨List.mem_append_left _ found, across lower found node List.mem_cons_self⟩
    · obtain ⟨found, first⟩ := ihAfter after here
      exact ⟨List.mem_append_right _ (List.mem_cons_of_mem _ found), first⟩

/-- All that is below a listed node is listed before it. -/
theorem Postorder.mem_of_below {before : Node → Node → Prop} (postorder : Postorder roots nodes)
    (listed : nodes.Pairwise before)
    (transitive : ∀ {first middle last : Node}, before first middle → before middle last →
      before first last) (member : node ∈ nodes) (below : lower.Below node) :
    lower ∈ nodes ∧ before lower node := by
  induction below with
  | child child => exact postorder.mem_of_child listed member child
  | further child _ ih =>
    obtain ⟨found, first⟩ := postorder.mem_of_child listed member child
    obtain ⟨foundToo, firstToo⟩ := ih found
    exact ⟨foundToo, transitive firstToo first⟩

/-- Nothing is listed but the roots and what is below them. -/
theorem Postorder.root_or_below (postorder : Postorder roots nodes) (member : node ∈ nodes) :
    node ∈ roots ∨ ∃ root ∈ roots, node.Below root := by
  induction postorder with
  | nil => cases member
  | @cons parent rest inner others _ _ ihInside ihAfter =>
    rcases List.mem_append.mp member with here | here
    · refine .inr ⟨parent, List.mem_cons_self, ?_⟩
      rcases ihInside here with child | ⟨child, found, below⟩
      · exact .child child
      · exact .further found below
    rcases List.mem_cons.mp here with rfl | here
    · exact .inl List.mem_cons_self
    rcases ihAfter here with found | ⟨root, found, below⟩
    · exact .inl (List.mem_cons_of_mem _ found)
    · exact .inr ⟨root, List.mem_cons_of_mem _ found, below⟩

/-- The nodes below a node are the post-order of its children. -/
theorem Postorder.mem_iff_below (postorder : Postorder node.children nodes) :
    lower ∈ nodes ↔ lower.Below node := by
  refine ⟨fun member => ?_, fun below => ?_⟩
  · rcases postorder.root_or_below member with child | ⟨child, found, below⟩
    · exact .child child
    · exact .further found below
  · have any : nodes.Pairwise fun _ _ => True := List.pairwise_of_forall fun _ _ => trivial
    cases below with
    | child child => exact postorder.roots_subset child
    | further child below =>
      exact (postorder.mem_of_below any (fun _ _ => trivial) (postorder.roots_subset child) below).1

end Node

/-! ## The identities of a program -/

/-- The nodes of a program are those below its root. -/
theorem Program.mem_nodes_iff {program : Program} {node : Node} :
    node ∈ Stmt.nodesOfAll program.body ↔ node.Below (.block program) :=
  have postorder : Postorder (Node.block program).children (Stmt.nodesOfAll program.body) :=
    Stmt.postorder_nodesOfAll program.body
  postorder.mem_iff_below

/-- The nodes below the root of a program are numbered in post-order. -/
structure Program.Numbered (program : Program) (nodes : List Node) : Prop where
  root : program.mark.id = 0
  complete : ∀ node, node ∈ nodes ↔ node.Below (.block program)
  postorder : Postorder (Node.block program).children nodes
  consecutive : nodes.map Node.id = List.range' 1 nodes.length
  distinct : (nodes.map Node.id).Nodup
  above : ∀ node ∈ nodes, ∀ lower : Node, lower.Below node → lower.id < node.id

theorem Parser.numbers_root : program.Numbers fun p _ => p.mark.id = 0 :=
  Parse.silent_get.bind fun _ =>
    Parse.numbers_bind (Parse.silent_get.bind fun _ => numbers_topLevel _) fun _ _ _ =>
      Parse.silent_current.bind fun _ => Parse.numbers_pure rfl

theorem ids_of_parse {file : String} {tokens : List Token} {program : Program}
    (parsed : parse file tokens = .ok program) :
    program.mark.id = 0 ∧ ∃ count, Stmt.idsOfAll program.body = List.range' 1 count := by
  unfold parse Parse.run EStateM.run at parsed
  split at parsed
  · rename_i p rest result
    cases parsed
    obtain ⟨_, _, root⟩ := Parser.numbers_root _ _ _ result
    obtain ⟨count, _, ids⟩ := Parser.numbers_program _ _ _ result
    exact ⟨root, count, ids⟩
  · cases parsed

namespace Program

/-- The parser numbers the nodes of a program in post-order. -/
theorem numbered_in_postorder {file : String} {tokens : List Token} {program : Program}
    (parsed : parse file tokens = .ok program) :
    program.Numbered (Stmt.nodesOfAll program.body) := by
  obtain ⟨root, count, ids⟩ := ids_of_parse parsed
  rw [← Stmt.map_id_nodesOfAll] at ids
  have postorder := Stmt.postorder_nodesOfAll program.body
  have length : (Stmt.nodesOfAll program.body).length = count := by
    rw [← List.length_map, ids, List.length_range']
  have listed : (Stmt.nodesOfAll program.body).Pairwise fun first second =>
      first.id < second.id := by
    rw [← List.pairwise_map, ids]
    exact List.pairwise_lt_range'
  refine ⟨root, fun _ => mem_nodes_iff, postorder, ?_, ?_, ?_⟩
  · rw [ids, length]
  · rw [ids]
    exact List.nodup_range'
  · intro node member lower below
    exact (postorder.mem_of_below listed Nat.lt_trans member below).2

/-- A source that is read gives its tokens, and a program of which something is known. -/
theorem exists_parsed {α : Type} {file : String} {source : List Char} {observe : Program → α}
    {a : α} (seen : ((tokenize file source).toOption.bind fun tokens =>
      (parse file tokens).toOption.map observe) = some a) :
    ∃ tokens program, tokenize file source = .ok tokens ∧ parse file tokens = .ok program ∧
      observe program = a := by
  cases tokenized : tokenize file source with
  | error error =>
    rw [tokenized] at seen
    cases seen
  | ok tokens =>
    rw [tokenized] at seen
    change (parse file tokens).toOption.map observe = some a at seen
    cases parsed : parse file tokens with
    | error error =>
      rw [parsed] at seen
      cases seen
    | ok program =>
      rw [parsed] at seen
      exact ⟨tokens, program, rfl, parsed, Option.some.inj seen⟩

/-- A box with an attribute and a method, of which the body is a block of its own. -/
theorem numbered_in_postorder_in_box : ∃ tokens program,
    tokenize "main.sigh"
        "box B \x7b attr a: Int[] meth f(x: Int): Int \x7b return -x \x7d \x7d".toList =
      .ok tokens ∧
      parse "main.sigh" tokens = .ok program ∧ (Stmt.nodesOfAll program.body).length = 12 ∧
      program.Numbered (Stmt.nodesOfAll program.body) := by
  have seen : ((tokenize "main.sigh"
      "box B \x7b attr a: Int[] meth f(x: Int): Int \x7b return -x \x7d \x7d".toList).toOption.bind
        fun tokens => (parse "main.sigh" tokens).toOption.map fun program =>
          (Stmt.nodesOfAll program.body).length) = some 12 := by
    decide +kernel
  obtain ⟨tokens, program, read, parsed, count⟩ := exists_parsed seen
  exact ⟨tokens, program, read, parsed, count, numbered_in_postorder parsed⟩

end Program

end BoxScript
