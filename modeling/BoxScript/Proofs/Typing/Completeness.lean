import BoxScript.Proofs.Rules.Course
import BoxScript.Proofs.Syntax.Nodes
import BoxScript.Proofs.Typing.Progress
import BoxScript.Proofs.Walking.Accepted

/-!
# The annotations of a program are complete

The walk over a program comes by each of its nodes (`Walk.covers_program`). So the annotations of an
accepted program tell what there is to tell about each node, and no rule of it has been dropped on
the way (`Program.annotated_completely`).
-/

set_option autoImplicit false
set_option maxRecDepth 100000

namespace BoxScript

/-! ## Nodes that are come by -/

/-- Whether steps declare the parameters of a function and have the rule for its type. -/
def FunctionDecl.Walked (whole : List Step) (decl : FunctionDecl) : Prop :=
  .rule (.signature decl) ∈ whole ∧ ∀ parameter ∈ decl.parameters, ∃ scope,
    .declare scope parameter.name .param parameter.mark 0 ∈ whole

/-- Whether steps come by a node: by an annotation or expression, by a declaration with the rule for
its type, and by a statement with what tells whether it returns. -/
def Node.Walked (whole : List Step) : Node → Prop
  | .type written => ∃ scope, .typeExpr scope written ∈ whole
  | .expr e => ∃ scope expectation, .expr scope expectation e ∈ whole
  | .name typed => ∃ what, Walk.annotated typed what ∈ whole
  | .stmt (.var decl) =>
    .returns decl.mark false ∈ whole ∧
      (∃ scope, .declare scope decl.name .var decl.mark decl.mark.span.stop.offset ∈ whole) ∧
      match decl.form with
      | .typed written _ =>
        ∃ what, Walk.annotated ⟨decl.mark, decl.name, written⟩ what ∈ whole
      | .inferred value => .rule (.inferred decl.mark decl.name value.id) ∈ whole
  | .stmt (.function decl) => .returns decl.mark false ∈ whole ∧ decl.Walked whole
  | .stmt (.ifElse mark _ thenBody elseBody) =>
    .rule (.branchesReturn mark thenBody.id (elseBody.map Stmt.id)) ∈ whole
  | .stmt s => ∃ value, .returns s.mark value ∈ whole
  | .block b => .rule (.blockReturns b.mark (b.body.getLast?.map Stmt.id)) ∈ whole
  | .method decl => decl.Walked whole

namespace Walk

/-- Steps that come by all of some nodes. -/
def Covers (whole : List Step) (nodes : List Node) : Prop :=
  ∀ node ∈ nodes, node.Walked whole

variable {whole : List Step} {scope next : ScopeId} {enclosing : Option FunctionDecl}

theorem covers_append {first second : List Node} :
    Covers whole (first ++ second) ↔ Covers whole first ∧ Covers whole second :=
  List.forall_mem_append

theorem covers_single {node : Node} : Covers whole [node] ↔ node.Walked whole := by
  simp [Covers]

theorem covers_nil : Covers whole [] := by simp [Covers]

theorem covers_typeExpr {type : TypeExpr} (walked : typeExpr scope type ⊆ whole) :
    Covers whole type.nodes := by
  induction type with
  | named mark name => exact covers_single.mpr ⟨scope, walked List.mem_cons_self⟩
  | array mark component ih =>
    rw [typeExpr, List.append_subset] at walked
    exact covers_append.mpr
      ⟨ih walked.1, covers_single.mpr ⟨scope, walked.2 List.mem_cons_self⟩⟩

/-- An expression is come by after its parts. -/
theorem covers_after {inside : List Step} {parts : List Node} {expectation : Expectation} {e : Expr}
    (walked : inside ++ [.expr scope expectation e] ⊆ whole)
    (before : inside ⊆ whole → Covers whole parts) : Covers whole (parts ++ [.expr e]) := by
  rw [List.append_subset] at walked
  exact covers_append.mpr ⟨before walked.1,
    covers_single.mpr ⟨scope, expectation, walked.2 List.mem_cons_self⟩⟩

mutual

theorem covers_expr (scope : ScopeId) : ∀ (e : Expr) (expectation : Expectation),
    expr scope expectation e ⊆ whole → Covers whole e.nodes
  | .array _ elements => fun _ walked =>
    covers_after walked (covers_exprs scope elements _)
  | .paren _ inner => fun _ walked =>
    covers_after walked (covers_expr scope inner _)
  | .unary _ _ operand => fun _ walked =>
    covers_after walked (covers_expr scope operand _)
  | .binary _ _ left right => fun _ walked =>
    covers_after walked fun inside =>
      have ⟨first, second⟩ := List.append_subset.mp inside
      covers_append.mpr ⟨covers_expr scope left _ first, covers_expr scope right _ second⟩
  | .assign _ target value => fun _ walked =>
    covers_after walked fun inside =>
      have ⟨first, second⟩ := List.append_subset.mp inside
      covers_append.mpr ⟨covers_expr scope target _ first, covers_expr scope value _ second⟩
  | .call _ callee given => fun _ walked =>
    covers_after walked fun inside =>
      have ⟨first, second⟩ := List.append_subset.mp inside
      covers_append.mpr
        ⟨covers_expr scope callee _ first, covers_arguments scope given _ _ second⟩
  | .index _ owner place => fun _ walked =>
    covers_after walked fun inside =>
      have ⟨first, second⟩ := List.append_subset.mp inside
      covers_append.mpr ⟨covers_expr scope owner _ first, covers_expr scope place _ second⟩
  | .field _ receiver _ | .member _ receiver _ => fun _ walked =>
    covers_after walked (covers_expr scope receiver _)
  | .int _ _ | .float _ _ | .string _ _ | .bool _ _ | .null _ | .symbol _ _ | .constructor _ _
  | .create _ _ => fun expectation walked =>
    covers_single.mpr ⟨scope, expectation, walked List.mem_cons_self⟩

theorem covers_exprs (scope : ScopeId) : ∀ (es : List Expr) (expectation : Expectation),
    exprs scope expectation es ⊆ whole → Covers whole (Expr.nodesOfAll es)
  | [] => fun _ _ => covers_nil
  | e :: rest => fun _ walked =>
    have ⟨first, others⟩ := List.append_subset.mp walked
    covers_append.mpr ⟨covers_expr scope e _ first, covers_exprs scope rest _ others⟩

theorem covers_arguments (scope : ScopeId) : ∀ (es : List Expr) (callee : NodeId) (index : Nat),
    arguments scope callee index es ⊆ whole → Covers whole (Expr.nodesOfAll es)
  | [] => fun _ _ _ => covers_nil
  | e :: rest => fun _ _ walked =>
    have ⟨first, others⟩ := List.append_subset.mp walked
    covers_append.mpr ⟨covers_expr scope e _ first, covers_arguments scope rest _ _ others⟩

end

/-! ## Declarations -/

theorem covers_parameters {home : ScopeId} {names : List TypedName}
    (types : parameterTypes scope names ⊆ whole) (declared : parameters home names ⊆ whole) :
    Covers whole (names.flatMap TypedName.nodes) := by
  induction names with
  | nil => exact covers_nil
  | cons name rest ih =>
    simp only [parameterTypes, parameters, List.append_subset, List.cons_subset] at types declared
    obtain ⟨⟨_, rule, _⟩, others⟩ := declared
    rw [List.flatMap_cons, TypedName.nodes, covers_append, covers_append, covers_single]
    exact ⟨⟨covers_typeExpr types.1, _, rule⟩, ih types.2 others⟩

theorem mem_parameters {home : ScopeId} {names : List TypedName} {name : TypedName}
    (member : name ∈ names) :
    .declare home name.name .param name.mark 0 ∈ parameters home names := by
  induction names with
  | nil => cases member
  | cons first rest ih =>
    rcases List.mem_cons.mp member with rfl | member
    · exact List.mem_cons_self
    · exact List.mem_append_right _ (ih member)

theorem covers_fields {home : ScopeId} {owner : String} {names : List TypedName}
    (walked : fields scope home owner names ⊆ whole) :
    Covers whole (names.flatMap TypedName.nodes) := by
  induction names with
  | nil => exact covers_nil
  | cons name rest ih =>
    simp only [fields, List.append_subset, List.cons_subset] at walked
    obtain ⟨⟨types, _, rule, _⟩, others⟩ := walked
    rw [List.flatMap_cons, TypedName.nodes, covers_append, covers_append, covers_single]
    exact ⟨⟨covers_typeExpr types, _, rule⟩, ih others⟩

theorem covers_varDecl {decl : VariableDecl} (walked : varDecl scope decl ⊆ whole) :
    Covers whole (Stmt.var decl).nodes := by
  obtain ⟨mark, name, form⟩ := decl
  rw [Stmt.nodes, covers_append, covers_single]
  cases form with
  | inferred value =>
    simp only [varDecl, List.append_subset, List.cons_subset] at walked
    obtain ⟨⟨steps, declares, returns, _⟩, rule, _⟩ := walked
    exact ⟨covers_expr scope value _ steps, returns, ⟨_, declares⟩, rule⟩
  | typed type value =>
    cases value with
    | none =>
      simp only [varDecl, List.append_subset, List.cons_subset] at walked
      obtain ⟨⟨types, declares, returns, _⟩, rule, _⟩ := walked
      exact ⟨covers_typeExpr types, returns, ⟨_, declares⟩, _, rule⟩
    | some value =>
      simp only [varDecl, List.append_subset, List.cons_subset] at walked
      obtain ⟨⟨⟨types, steps⟩, declares, returns, _⟩, rule, _⟩ := walked
      exact ⟨covers_append.mpr ⟨covers_typeExpr types, covers_expr scope value _ steps⟩, returns,
        ⟨_, declares⟩, _, rule⟩

/-! ## Statements -/

mutual

theorem covers_stmt : ∀ (s : Stmt) (scope next : ScopeId) (enclosing : Option FunctionDecl),
    stmt scope next enclosing s ⊆ whole → Covers whole s.nodes
  | .block b => fun scope next enclosing walked => covers_block b scope next enclosing walked
  | .expression mark e => by
    intro scope next enclosing walked
    rw [stmt, List.append_subset] at walked
    rw [Stmt.nodes, covers_append, covers_single]
    exact ⟨covers_expr scope e _ walked.1, false, walked.2 List.mem_cons_self⟩
  | .var _ => fun _ _ _ walked => covers_varDecl walked
  | .function decl => by
    intro scope next enclosing walked
    rw [stmt, List.append_subset] at walked
    rw [Stmt.nodes, covers_append, covers_single]
    obtain ⟨inside, signature⟩ := covers_function decl scope next walked.1
    exact ⟨inside, walked.2 List.mem_cons_self, signature⟩
  | .struct decl => by
    intro scope next enclosing walked
    simp only [stmt, struct, List.append_subset, List.cons_subset] at walked
    obtain ⟨⟨⟨returns, _⟩, members⟩, _⟩ := walked
    rw [Stmt.nodes, covers_append, covers_single]
    exact ⟨covers_fields members, false, returns⟩
  | .box ⟨mark, name, members⟩ => by
    intro scope next enclosing walked
    simp only [stmt, box, List.append_subset, List.cons_subset] at walked
    obtain ⟨⟨⟨⟨returns, _⟩, _⟩, _⟩, memberSteps⟩ := walked
    rw [Stmt.nodes, covers_append, covers_single]
    exact ⟨covers_boxMembers members scope next (next + 1) name memberSteps, false, returns⟩
  | .ifElse mark e thenBody none => by
    intro scope next enclosing walked
    simp only [stmt, List.append_subset, List.cons_subset] at walked
    obtain ⟨⟨⟨⟨steps, _⟩, _⟩, first⟩, rule, _⟩ := walked
    rw [Stmt.nodes, covers_append, covers_append, covers_single]
    exact ⟨⟨covers_expr scope e _ steps, covers_stmt thenBody _ _ _ first⟩, rule⟩
  | .ifElse mark e thenBody (some elseBody) => by
    intro scope next enclosing walked
    simp only [stmt, List.append_subset, List.cons_subset] at walked
    obtain ⟨⟨⟨⟨⟨steps, _⟩, _, first⟩, _⟩, second⟩, rule, _⟩ := walked
    rw [Stmt.nodes, covers_append, covers_append, covers_append, covers_single]
    exact ⟨⟨⟨covers_expr scope e _ steps, covers_stmt thenBody _ _ _ first⟩,
      covers_stmt elseBody _ _ _ second⟩, rule⟩
  | .while mark e body => by
    intro scope next enclosing walked
    simp only [stmt, List.append_subset, List.cons_subset] at walked
    obtain ⟨⟨⟨⟨steps, _⟩, _⟩, first⟩, returns, _⟩ := walked
    rw [Stmt.nodes, covers_append, covers_append, covers_single]
    exact ⟨⟨covers_expr scope e _ steps, covers_stmt body _ _ _ first⟩, false, returns⟩
  | .return mark none => by
    intro scope next enclosing walked
    exact covers_single.mpr ⟨true, walked (by simp [stmt, Stmt.mark])⟩
  | .return mark (some value) => by
    intro scope next enclosing walked
    simp only [stmt, List.append_subset, List.cons_subset] at walked
    rw [Stmt.nodes, covers_append, covers_single]
    exact ⟨covers_expr scope value _ walked.1, true, walked.2.1⟩

theorem covers_block : ∀ (b : Block) (scope next : ScopeId) (enclosing : Option FunctionDecl),
    block scope next enclosing b ⊆ whole → Covers whole b.nodes
  | ⟨mark, body⟩ => by
    intro scope next enclosing walked
    simp only [block, List.append_subset, List.cons_subset] at walked
    obtain ⟨_, ⟨_, statements⟩, rule, _⟩ := walked
    rw [Block.nodes, covers_append, covers_single]
    exact ⟨covers_stmts body next (next + 1) enclosing statements, rule⟩

theorem covers_stmts : ∀ (body : List Stmt) (scope next : ScopeId)
    (enclosing : Option FunctionDecl), stmts scope next enclosing body ⊆ whole →
    Covers whole (Stmt.nodesOfAll body)
  | [] => fun _ _ _ _ => covers_nil
  | s :: rest => by
    intro scope next enclosing walked
    simp only [stmts, List.append_subset] at walked
    rw [Stmt.nodesOfAll, covers_append]
    exact ⟨covers_stmt s _ _ _ walked.1, covers_stmts rest _ _ _ walked.2⟩

theorem covers_function : ∀ (decl : FunctionDecl) (scope next : ScopeId),
    function scope next decl ⊆ whole → Covers whole decl.nodes ∧ decl.Walked whole
  | ⟨mark, name, params, result, body⟩ => by
    intro scope next walked
    simp only [function, List.append_subset, List.cons_subset] at walked
    obtain ⟨⟨types, resultSteps⟩, _, declared, signature, bodySteps, _⟩ := walked
    rw [FunctionDecl.nodes, covers_append, covers_append]
    refine ⟨⟨⟨covers_parameters types declared, ?_⟩, covers_block body _ _ _ bodySteps⟩, signature,
      fun parameter member => ⟨_, declared (mem_parameters member)⟩⟩
    cases result with
    | none => exact covers_nil
    | some type => exact covers_typeExpr resultSteps

theorem covers_boxMembers : ∀ (members : List Member) (scope inner next : ScopeId)
    (owner : String), boxMembers scope inner next owner members ⊆ whole →
    Covers whole (Member.nodesOfAll members)
  | [] => fun _ _ _ _ _ => covers_nil
  | .attr decl :: rest => by
    intro scope inner next owner walked
    simp only [boxMembers, List.append_subset, List.cons_subset] at walked
    obtain ⟨⟨types, rule, _⟩, others⟩ := walked
    rw [Member.nodesOfAll, TypedName.nodes, covers_append, covers_append, covers_single]
    exact ⟨⟨covers_typeExpr types, _, rule⟩, covers_boxMembers rest _ _ _ _ others⟩
  | .meth decl :: rest => by
    intro scope inner next owner walked
    simp only [boxMembers, List.append_subset] at walked
    obtain ⟨inside, signature⟩ := covers_function decl _ _ walked.1
    rw [Member.nodesOfAll, covers_append, covers_append, covers_single]
    exact ⟨⟨inside, signature⟩, covers_boxMembers rest _ _ _ _ walked.2⟩

end

/-- The walk over a program comes by all of its nodes. -/
theorem covers_program (body : List Stmt) : Covers (program body) (Stmt.nodesOfAll body) := by
  apply covers_stmts body 1 2 none
  intro step member
  exact List.mem_cons_of_mem _ (List.mem_append_right _ member)

end Walk

/-! ## Nodes that are annotated -/

/-- Whether annotations tell what there is to tell about a node: the type of an annotation or an
expression, the declaration that a reference means, the type of what a declaration declares, and
whether a statement returns. A field has a declaration if it is one of a struct. -/
def Node.Annotated (notes : Annotations) : Node → Prop
  | .type written => (notes.typeOf? written.id).isSome = true
  | .expr e => (notes.typeOf? e.id).isSome = true ∧
    match e with
    | .symbol mark _ | .constructor mark _ | .create mark _ | .member mark _ _ =>
      (notes.declOf? mark.id).isSome = true
    | .field mark receiver _ => ∀ named, notes.typeOf? receiver.id = some (.struct named) →
      (notes.declOf? mark.id).isSome = true
    | _ => True
  | .name typed => (notes.declType? typed.mark.id).isSome = true
  | .stmt s => (notes.returns? s.id).isSome = true ∧
    match s with
    | .var decl => (notes.declType? decl.mark.id).isSome = true
    | .function decl => (notes.declType? decl.mark.id).isSome = true
    | _ => True
  | .block b => (notes.returns? b.mark.id).isSome = true
  | .method decl => (notes.declType? decl.mark.id).isSome = true

namespace Analysis.Accepted

variable {known : Analysis}

theorem isSome_returns (accepted : known.Accepted) {mark : Mark} {value : Bool}
    (member : .returns mark value ∈ known.steps) :
    (known.notes.returns? mark.id).isSome = true := by
  apply Option.isSome_of_eq_some
  exact Annotations.returns?_eq_some.mpr (accepted.noted _ member _ List.mem_cons_self)

theorem isSome_signature (accepted : known.Accepted) {decl : FunctionDecl}
    (member : .rule (.signature decl) ∈ known.steps) :
    (known.notes.declType? decl.mark.id).isSome = true := by
  obtain ⟨params, result, _, _, typed⟩ :=
    Rule.signature_holds_iff.mp (accepted.holds _ member _ List.mem_cons_self)
  exact Option.isSome_of_eq_some typed

theorem isSome_annotated (accepted : known.Accepted) {name : TypedName} {what : String}
    (member : Walk.annotated name what ∈ known.steps) :
    (known.notes.declType? name.mark.id).isSome = true := by
  obtain ⟨ty, _, typed⟩ :=
    Rule.annotated_holds_iff.mp (accepted.holds _ member _ List.mem_cons_self)
  exact Option.isSome_of_eq_some typed

theorem annotated_type (accepted : known.Accepted) {scope : ScopeId} {written : TypeExpr}
    (member : .typeExpr scope written ∈ known.steps) :
    (Node.type written).Annotated known.notes := by
  have holds := accepted.holds _ member _ List.mem_cons_self
  cases written with
  | named mark name =>
    obtain ⟨_, _, ty, _, _, typed⟩ := Rule.typeName_holds_iff.mp holds
    exact Option.isSome_of_eq_some typed
  | array mark component =>
    obtain ⟨ty, _, typed⟩ := Rule.arrayType_holds_iff.mp holds
    exact Option.isSome_of_eq_some typed

theorem annotated_expr (accepted : known.Accepted) {scope : ScopeId} {expectation : Expectation}
    {e : Expr} (member : .expr scope expectation e ∈ known.steps) :
    (Node.expr e).Annotated known.notes := by
  cases e with
  | int _ _ | float _ _ | string _ _ | bool _ _ | null _ =>
    exact ⟨Option.isSome_of_eq_some (accepted.literal member rfl), trivial⟩
  | symbol mark name =>
    obtain ⟨decl, ty, _, reference, _, typed⟩ := Rule.symbol_of_holds (accepted.rule member rfl)
    exact ⟨Option.isSome_of_eq_some typed, Option.isSome_of_eq_some reference⟩
  | array mark elements =>
    obtain ⟨component, typed, _⟩ := Rule.array_of_holds (accepted.rule member rfl)
    exact ⟨Option.isSome_of_eq_some typed, trivial⟩
  | paren mark inner =>
    obtain ⟨ty, _, typed⟩ := Rule.paren_holds_iff.mp (accepted.rule member rfl)
    exact ⟨Option.isSome_of_eq_some typed, trivial⟩
  | unary mark op operand =>
    obtain ⟨ty, _, fits⟩ := Rule.unary_holds_iff.mp (accepted.rule member rfl)
    cases op with
    | not => exact ⟨Option.isSome_of_eq_some fits.2, trivial⟩
    | negate => exact ⟨Option.isSome_of_eq_some fits.2, trivial⟩
  | binary mark op left right =>
    obtain ⟨_, _, ty, _, _, _, typed⟩ := Rule.binary_holds_iff.mp (accepted.rule member rfl)
    exact ⟨Option.isSome_of_eq_some typed, trivial⟩
  | assign mark target value =>
    obtain ⟨_, ty, _, _, _, _, typed⟩ := Rule.assign_holds_iff.mp (accepted.rule member rfl)
    exact ⟨Option.isSome_of_eq_some typed, trivial⟩
  | call mark callee given =>
    obtain ⟨_, result, _, _, typed⟩ := Rule.call_holds_iff.mp (accepted.rule member rfl)
    exact ⟨Option.isSome_of_eq_some typed, trivial⟩
  | index mark owner place =>
    obtain ⟨component, _, _, _, _, typed⟩ := Rule.index_holds_iff.mp (accepted.rule member rfl)
    exact ⟨Option.isSome_of_eq_some typed, trivial⟩
  | field mark receiver name =>
    rcases Rule.field_of_holds (accepted.rule member rfl) with
      ⟨_, _, _, _, _, _, _, reference, _, typed⟩ | ⟨component, isArray, _, typed⟩
    · exact ⟨Option.isSome_of_eq_some typed, fun _ _ => Option.isSome_of_eq_some reference⟩
    · refine ⟨Option.isSome_of_eq_some typed, fun named isStruct => ?_⟩
      rw [isArray] at isStruct
      cases isStruct
  | member mark receiver name =>
    obtain ⟨_, _, _, _, _, _, _, reference, _, typed⟩ :=
      Rule.member_of_holds (accepted.rule member rfl)
    exact ⟨Option.isSome_of_eq_some typed, Option.isSome_of_eq_some reference⟩
  | constructor mark name =>
    obtain ⟨_, _, _, _, reference, _, _, typed⟩ :=
      Rule.constructor_of_holds (accepted.rule member rfl)
    exact ⟨Option.isSome_of_eq_some typed, Option.isSome_of_eq_some reference⟩
  | create mark name =>
    obtain ⟨_, _, _, reference, _, typed⟩ := Rule.create_of_holds (accepted.rule member rfl)
    exact ⟨Option.isSome_of_eq_some typed, Option.isSome_of_eq_some reference⟩

theorem annotated_stmt (accepted : known.Accepted) {s : Stmt}
    (walked : (Node.stmt s).Walked known.steps) : (Node.stmt s).Annotated known.notes := by
  cases s with
  | var decl =>
    obtain ⟨returns, _, declared⟩ := walked
    refine ⟨accepted.isSome_returns returns, ?_⟩
    obtain ⟨mark, name, form⟩ := decl
    cases form with
    | typed type value =>
      obtain ⟨what, rule⟩ := declared
      exact accepted.isSome_annotated rule
    | inferred value =>
      obtain ⟨ty, _, _, _, typed⟩ :=
        Rule.inferred_holds_iff.mp (accepted.holds _ declared _ List.mem_cons_self)
      exact Option.isSome_of_eq_some typed
  | function decl =>
    exact ⟨accepted.isSome_returns walked.1, accepted.isSome_signature walked.2.1⟩
  | ifElse mark e thenBody elseBody =>
    obtain ⟨first, _, answer⟩ :=
      Rule.branchesReturn_holds_iff.mp (accepted.holds _ walked _ List.mem_cons_self)
    refine ⟨?_, trivial⟩
    split at answer
    · obtain ⟨second, _, returns⟩ := answer
      exact Option.isSome_of_eq_some returns
    · exact Option.isSome_of_eq_some answer
  | block _ | expression _ _ | struct _ | box _ | «while» _ _ _ | «return» _ _ =>
    obtain ⟨value, returns⟩ := walked
    exact ⟨accepted.isSome_returns returns, trivial⟩

theorem annotated_block (accepted : known.Accepted) {b : Block}
    (walked : (Node.block b).Walked known.steps) : (Node.block b).Annotated known.notes := by
  have answer := Rule.blockReturns_holds_iff.mp (accepted.holds _ walked _ List.mem_cons_self)
  split at answer
  · obtain ⟨value, _, returns⟩ := answer
    exact Option.isSome_of_eq_some returns
  · exact Option.isSome_of_eq_some answer

theorem annotated_of_walked (accepted : known.Accepted) {node : Node}
    (walked : node.Walked known.steps) : node.Annotated known.notes := by
  cases node with
  | type written =>
    obtain ⟨scope, member⟩ := walked
    exact accepted.annotated_type member
  | expr e =>
    obtain ⟨scope, expectation, member⟩ := walked
    exact accepted.annotated_expr member
  | name typed =>
    obtain ⟨what, member⟩ := walked
    exact accepted.isSome_annotated member
  | method decl => exact accepted.isSome_signature walked.1
  | block b => exact accepted.annotated_block walked
  | stmt s => exact accepted.annotated_stmt walked

end Analysis.Accepted

namespace Program

variable {program : Program} {notes : Annotations}

/-- Each attempt that the solver makes at the rules of an accepted program waits, or completes
without an error. -/
theorem attempts_of_accepted (nodup : (Stmt.idsOfAll program.body).Nodup)
    (analyzed : analyze program = .ok notes) :
    ∀ trial ∈ Findings.course program.symbols program.rules program.start,
      (∃ key, trial.1.attempt program.symbols trial.2 = .missing key) ∨
        ∃ writes, trial.1.attempt program.symbols trial.2 = .completed writes [] := by
  obtain ⟨_, _, _, rfl⟩ := analyze_eq_ok_iff.mp analyzed
  have accepted := accepted_of_analyze nodup analyzed
  have pending := (program.independent nodup program.symbols).isOpen
  intro trial made
  obtain ⟨member, _, before⟩ := Findings.course_within pending trial made
  obtain ⟨step, walked, collected⟩ := List.mem_flatMap.mp member
  obtain ⟨writes, completed, _⟩ := accepted.holds step walked trial.1 collected
  by_cases waits : trial.1.Waits program.symbols trial.2
  · left
    unfold Rule.Waits at waits
    cases attempted : trial.1.attempt program.symbols trial.2 with
    | missing key => exact ⟨key, rfl⟩
    | completed writes errors =>
      rw [attempted] at waits
      cases waits
    | poisoned =>
      rw [attempted] at waits
      cases waits
  · right
    exact ⟨writes, (pending.scripted trial.1 member).attempt_eq before waits ▸ completed⟩

/-- The annotations of an accepted program tell what there is to tell about each node, and no
attempt at a rule fails or meets a poisoned slot. -/
theorem annotated_completely {file : String} {tokens : List Token}
    (parsed : parse file tokens = .ok program) (analyzed : analyze program = .ok notes) :
    (∀ node ∈ Stmt.nodesOfAll program.body, node.Annotated notes) ∧
      ∀ trial ∈ Findings.course program.symbols program.rules program.start,
        (∃ key, trial.1.attempt program.symbols trial.2 = .missing key) ∨
          ∃ writes, trial.1.attempt program.symbols trial.2 = .completed writes [] := by
  have nodup := nodup_ids_of_parse parsed
  refine ⟨?_, attempts_of_accepted nodup analyzed⟩
  intro node member
  exact (accepted_of_analyze nodup analyzed).annotated_of_walked
    (Walk.covers_program program.body node member)

/-- A box with an attribute and a method, a struct, a function, and variables of each form. -/
theorem annotated_completely_with_members : ∃ tokens program notes,
    parse "main.sigh" tokens = .ok program ∧ analyze program = .ok notes ∧
      (∀ node ∈ Stmt.nodesOfAll program.body, node.Annotated notes) ∧
      ∀ trial ∈ Findings.course program.symbols program.rules program.start,
        (∃ key, trial.1.attempt program.symbols trial.2 = .missing key) ∨
          ∃ writes, trial.1.attempt program.symbols trial.2 = .completed writes [] := by
  have known : verdict "main.sigh"
      "var a = f(b())#n\nstruct S { var x: Int }\nbox B { attr n: Int[] meth m() {} }
      fun b(): Int { return $S(1).x }\nfun f(n: Int): B { return create B() }".toList =
      some true := by
    decide +kernel
  obtain ⟨program, read, passed⟩ := analyzed_of_verdict known
  obtain ⟨tokens, _, parsed⟩ := parsed_of_readProgram read
  cases analyzed : analyze program with
  | error errors =>
    rw [analyzed] at passed
    cases passed
  | ok notes =>
    obtain ⟨annotated, attempts⟩ := annotated_completely parsed analyzed
    exact ⟨tokens, program, notes, parsed, analyzed, annotated, attempts⟩

end Program

end BoxScript
