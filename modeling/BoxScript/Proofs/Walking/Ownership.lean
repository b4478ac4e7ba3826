import BoxScript.Proofs.Walking.Scopes

/-!
# Stretches of the walk

The steps for a part of a program are a stretch of those for the whole program. A stretch owns the
scopes that it opens: the rest of the program declares nothing in them (`Step.Owned`). The lemmas
here go down from the stretch of a construct to those of its parts, and say which names the scopes
of blocks, functions, structs and boxes hold.
-/

set_option autoImplicit false

namespace BoxScript

namespace Step

/-- Steps among those of a program, in their order, from which all declarations come in the scopes
that they open, whose numbers start at `next`. -/
structure Owned (program : List Step) (next : ScopeId) (steps : List Step) : Prop where
  stretch : steps.Sublist program
  declared : ∀ scope, next ≤ scope → scope < next + opened steps →
    declared scope program = declared scope steps

namespace Owned

variable {program first second : List Step} {next : ScopeId}

theorem subset (owned : Owned program next first) : first ⊆ program := owned.stretch.subset

theorem left (owned : Owned program next (first ++ second))
    (later : ∀ scope, next ≤ scope → scope < next + opened first →
      Step.declared scope second = []) :
    Owned program next first where
  stretch := (List.sublist_append_left first second).trans owned.stretch
  declared := by
    intro scope lower upper
    have bound : scope < next + opened (first ++ second) := by
      rw [opened_append, ← Nat.add_assoc]
      exact Nat.lt_add_right _ upper
    rw [owned.declared scope lower bound, declared_append, later scope lower upper,
      List.append_nil]

theorem right (owned : Owned program next (first ++ second)) (ordered : Ordered next first) :
    Owned program (next + opened first) second where
  stretch := (List.sublist_append_right first second).trans owned.stretch
  declared := by
    intro scope lower upper
    have bound : scope < next + opened (first ++ second) := by
      rwa [opened_append, ← Nat.add_assoc]
    rw [owned.declared scope (Nat.le_trans (Nat.le_add_right _ _) lower) bound, declared_append,
      ordered.declared_eq_nil lower, List.nil_append]

/-- Plain steps own nothing. -/
theorem plain_left (owned : Owned program next (first ++ second)) (plain : Plain first) :
    Owned program next second := by
  have rest := owned.right (plain.ordered next)
  rwa [plain.opened, Nat.add_zero] at rest

theorem plain_cons {step : Step} {rest : List Step} (owned : Owned program next (step :: rest))
    (plain : step.isPlain = true) : Owned program next rest := by
  rw [← List.singleton_append] at owned
  exact owned.plain_left (plain_single plain)

theorem plain_right (owned : Owned program next (first ++ second)) (plain : Plain second) :
    Owned program next first :=
  owned.left fun scope _ _ => plain.declared scope

theorem between {middle last : List Step} (owned : Owned program next (first ++ middle ++ last))
    (before : Plain first) (after : Plain last) : Owned program next middle :=
  (owned.plain_right after).plain_left before

/-- What the scope holds that a stretch opens first. -/
theorem first_scope {kind : ScopeKind} {parent : ScopeId} {rest : List Step}
    (owned : Owned program next (.openScope next kind parent :: rest)) :
    Step.declared next program = Step.declared next rest := by
  have bound : next < next + opened (.openScope next kind parent :: rest) := by
    rw [opened_openScope_cons, ← Nat.add_assoc]
    exact Nat.lt_of_lt_of_le (Nat.lt_succ_self next) (Nat.le_add_right _ _)
  rw [owned.declared next (Nat.le_refl _) bound, declared_openScope_cons]

end Owned

end Step

namespace Walk

open Step

variable {program : List Step} {scope next : ScopeId} {enclosing : Option FunctionDecl}

/-! ## Statements -/

/-- The names that the scope of statements holds. -/
def declarations (scope : ScopeId) (body : List Stmt) : List Declaration :=
  body.flatMap (hoisted scope) ++ body.flatMap (introduced scope)

/-- A scope that is opened for statements. -/
structure Body (program : List Step) (scope : ScopeId) (kind : ScopeKind) (parent : ScopeId)
    (enclosing : Option FunctionDecl) (body : List Stmt) : Prop where
  opened : .openScope scope kind parent ∈ program
  declared : declared scope program = declarations scope body
  owned : Owned program (scope + 1) (stmts scope (scope + 1) enclosing body)

/-- A stretch that opens a scope for statements and goes through them. -/
theorem body_of_owned {kind : ScopeKind} {body : List Stmt} {rest : List Step}
    (inside : scope < next) (plain : Plain rest)
    (owned : Owned program next (.openScope next kind scope ::
      (hoist next body ++ stmts next (next + 1) enclosing body ++ rest))) :
    Body program next kind scope enclosing body where
  opened := owned.subset List.mem_cons_self
  declared := by
    rw [owned.first_scope, declared_append, declared_append, declared_hoist,
      declared_stmts next (Nat.lt_succ_self next), plain.declared, if_pos rfl, if_pos rfl,
      List.append_nil, declarations]
  owned := by
    have positive : 0 < next := Nat.lt_of_le_of_lt (Nat.zero_le _) inside
    have ordered : Ordered next (.openScope next kind scope :: hoist next body) :=
      ⟨rfl, inside, ordered_hoist positive (Nat.lt_succ_self _) body⟩
    rw [List.append_assoc, ← List.cons_append] at owned
    have later := owned.right ordered
    rw [opened_openScope_cons, opened_hoist, Nat.add_zero] at later
    exact later.plain_right plain

theorem body_of_block {mark : Mark} {body : List Stmt} (inside : scope < next)
    (owned : Owned program next (block scope next enclosing ⟨mark, body⟩)) :
    Body program next .block scope enclosing body ∧
      .rule (.blockReturns mark (body.getLast?.map Stmt.id)) ∈ program :=
  ⟨body_of_owned inside (plain_single rfl) owned,
    owned.subset (List.mem_cons_of_mem _ (List.mem_append_right _ List.mem_cons_self))⟩

theorem body_program (body : List Stmt) :
    Body (Walk.program body) 1 .root SymbolTable.builtinScope none body := by
  apply body_of_owned Nat.zero_lt_one plain_nil
  rw [List.append_nil]
  exact ⟨List.Sublist.refl _, fun _ _ _ => rfl⟩

/-- The stretch of a statement among those of the statements around it. -/
theorem owned_of_mem {body : List Stmt} (positive : 0 < scope) (inside : scope < next)
    (owned : Owned program next (stmts scope next enclosing body)) {s : Stmt} (member : s ∈ body) :
    ∃ later, scope < later ∧ Owned program later (stmt scope later enclosing s) := by
  induction body generalizing next with
  | nil => cases member
  | cons first rest ih =>
    rcases List.mem_cons.mp member with rfl | member
    · refine ⟨next, inside, owned.left fun home lower upper => ?_⟩
      rw [declared_stmts scope upper, if_neg (Nat.ne_of_lt (Nat.lt_of_lt_of_le inside lower))]
    · exact ih (Nat.lt_add_right _ inside)
        (owned.right (ordered_stmt positive inside enclosing first)) member

theorem ordered_branch (positive : 0 < scope) (inside : scope < next) (s : Stmt) :
    Ordered next (branch scope next enclosing s) :=
  ordered_branch_of (fun positive inside => ordered_stmt positive inside enclosing s) positive
    inside

theorem declared_branch {home : ScopeId} (isOpen : home < next) (s : Stmt) :
    declared home (branch scope next enclosing s) = [] :=
  declared_branch_of (fun scope _ _ isOpen => declared_stmt scope isOpen enclosing s) scope isOpen

/-- A body that is no block has a scope of its own. -/
theorem body_of_branch {s : Stmt} (noBlock : ∀ b, s ≠ .block b) (inside : scope < next)
    (owned : Owned program next (branch scope next enclosing s)) :
    Body program next .block scope enclosing [s] := by
  rw [branch_alone enclosing noBlock] at owned
  exact body_of_owned inside plain_nil owned

/-- What a condition leaves in the walk that its steps are part of. -/
theorem tested_of_subset {statement : Conditional} {condition : Expr}
    (subset : test scope statement condition ⊆ program) :
    expr scope .none condition ⊆ program ∧ .rule (.condition statement condition) ∈ program :=
  ⟨fun _ member => subset (List.mem_append_left _ member),
    subset (List.mem_append_right _ List.mem_cons_self)⟩

theorem owned_ifThen {mark : Mark} {condition : Expr} {thenBody : Stmt}
    (owned : Owned program next
      (stmt scope next enclosing (.ifElse mark condition thenBody none))) :
    expr scope .none condition ⊆ program ∧ .rule (.condition .if condition) ∈ program ∧
      Owned program next (branch scope next enclosing thenBody) ∧
      .rule (.branchesReturn mark thenBody.id none) ∈ program := by
  rw [stmt_ifThen] at owned
  obtain ⟨walked, rule⟩ := tested_of_subset fun _ member =>
    owned.subset (List.mem_append_left _ (List.mem_append_left _ member))
  exact ⟨walked, rule, owned.between (plain_test scope .if condition) (plain_single rfl),
    owned.subset (List.mem_append_right _ List.mem_cons_self)⟩

theorem owned_ifElse {mark : Mark} {condition : Expr} {thenBody elseBody : Stmt}
    (positive : 0 < scope) (inside : scope < next)
    (owned : Owned program next
      (stmt scope next enclosing (.ifElse mark condition thenBody (some elseBody)))) :
    expr scope .none condition ⊆ program ∧ .rule (.condition .if condition) ∈ program ∧
      Owned program next (branch scope next enclosing thenBody) ∧
      (∃ later, scope < later ∧ Owned program later (branch scope later enclosing elseBody)) ∧
      .rule (.branchesReturn mark thenBody.id (some elseBody.id)) ∈ program := by
  rw [stmt_ifElse] at owned
  obtain ⟨walked, rule⟩ := tested_of_subset fun _ member =>
    owned.subset (List.mem_append_left _ (List.mem_append_left _ member))
  have inner := owned.between (plain_test scope .if condition) (plain_single rfl)
  refine ⟨walked, rule, inner.left fun home lower upper => declared_branch upper elseBody,
    ⟨_, Nat.lt_add_right _ inside, inner.right (ordered_branch positive inside thenBody)⟩, ?_⟩
  exact owned.subset (List.mem_append_right _ List.mem_cons_self)

theorem owned_while {mark : Mark} {condition : Expr} {body : Stmt}
    (owned : Owned program next (stmt scope next enclosing (.while mark condition body))) :
    expr scope .none condition ⊆ program ∧ .rule (.condition .while condition) ∈ program ∧
      Owned program next (branch scope next enclosing body) := by
  rw [stmt_while] at owned
  obtain ⟨walked, rule⟩ := tested_of_subset fun _ member =>
    owned.subset (List.mem_append_left _ (List.mem_append_left _ member))
  exact ⟨walked, rule, owned.between (plain_test scope .while condition) (plain_single rfl)⟩

/-! ## Variables -/

/-- A variable that the walk has gone through: it is declared, and its type is annotated or that of
its initializer. -/
structure VariableWalked (program : List Step) (scope : ScopeId) (decl : VariableDecl) : Prop where
  declares : .declare scope decl.name .var decl.mark decl.mark.span.stop.offset ∈ program
  returns : .returns decl.mark false ∈ program
  typed : match decl.form with
    | .typed type value => (∃ what, annotated ⟨decl.mark, decl.name, type⟩ what ∈ program) ∧
      ∀ e, value = some e → expr scope (.type type.id) e ⊆ program ∧
        .rule (.initializer decl.name type.id e) ∈ program
    | .inferred value => expr scope .none value ⊆ program ∧
      .rule (.inferred decl.mark decl.name value.id) ∈ program

theorem variableWalked_of_subset {decl : VariableDecl} (subset : varDecl scope decl ⊆ program) :
    VariableWalked program scope decl := by
  obtain ⟨mark, name, form⟩ := decl
  cases form with
  | inferred value =>
    exact ⟨subset (by simp [varDecl]), subset (by simp [varDecl]),
      fun _ member => subset (List.mem_append_left _ (List.mem_append_left _ member)),
      subset (by simp [varDecl])⟩
  | typed type value =>
    cases value with
    | none =>
      exact ⟨subset (by simp [varDecl]), subset (by simp [varDecl]),
        ⟨_, subset (List.mem_append_right _ List.mem_cons_self)⟩, by simp⟩
    | some value =>
      refine ⟨subset (by simp [varDecl]), subset (by simp [varDecl]),
        ⟨_, subset (List.mem_append_right _ List.mem_cons_self)⟩, ?_⟩
      rintro e same
      cases same
      exact ⟨fun _ member => subset (by simp [varDecl, member]), subset (by simp [varDecl])⟩

/-! ## Functions, structs and boxes -/

/-- A function that the walk has gone through: its scope holds its parameters, whose types are
annotated, and its body lies inside. -/
structure FunctionWalked (program : List Step) (scope inner : ScopeId) (decl : FunctionDecl) :
    Prop where
  opened : .openScope inner .function scope ∈ program
  declared : declared inner program = decl.parameters.map (named inner .param)
  annotated : ∀ parameter ∈ decl.parameters, ∃ what, annotated parameter what ∈ program
  signature : .rule (.signature decl) ∈ program
  returnsAlways : ∀ type, decl.result = some type → .rule (.returnsAlways decl type.id) ∈ program
  body : Owned program (inner + 1) (block inner (inner + 1) (some decl) decl.body)

/-- A struct that the walk has gone through. -/
structure StructWalked (program : List Step) (scope inner : ScopeId) (decl : StructDecl) :
    Prop where
  opened : .openScope inner .struct scope ∈ program
  declared : declared inner program = decl.fields.map (named inner .field)
  annotated : ∀ field ∈ decl.fields, ∃ what, annotated field what ∈ program
  members : .setMembers decl.mark.id inner ∈ program

/-- A box that the walk has gone through. -/
structure BoxWalked (program : List Step) (scope inner : ScopeId) (decl : BoxDecl) : Prop where
  opened : .openScope inner .box scope ∈ program
  declared : declared inner program = decl.members.map (membership inner)
  annotated : ∀ attr ∈ decl.attributes, ∃ what, annotated attr what ∈ program
  members : .setMembers decl.mark.id inner ∈ program
  methods : ∀ method ∈ decl.methods, ∃ home, FunctionWalked program inner home method

theorem annotated_mem_parameters (scope : ScopeId) {parameter : TypedName} {names : List TypedName}
    (member : parameter ∈ names) : ∃ what, annotated parameter what ∈ parameters scope names := by
  induction names with
  | nil => cases member
  | cons first rest ih =>
    rcases List.mem_cons.mp member with rfl | member
    · exact ⟨_, List.mem_append_left _ (List.mem_cons_of_mem _ List.mem_cons_self)⟩
    · obtain ⟨what, found⟩ := ih member
      exact ⟨what, List.mem_append_right _ found⟩

theorem annotated_mem_fields (scope next : ScopeId) (owner : String) {field : TypedName}
    {names : List TypedName} (member : field ∈ names) :
    ∃ what, annotated field what ∈ fields scope next owner names := by
  induction names with
  | nil => cases member
  | cons first rest ih =>
    rcases List.mem_cons.mp member with rfl | member
    · exact ⟨_, List.mem_append_left _
        (List.mem_append_right _ (List.mem_cons_of_mem _ List.mem_cons_self))⟩
    · obtain ⟨what, found⟩ := ih member
      exact ⟨what, List.mem_append_right _ found⟩

theorem functionWalked_of_owned {decl : FunctionDecl} (inside : scope < next)
    (owned : Owned program next (function scope next decl)) :
    FunctionWalked program scope next decl := by
  obtain ⟨mark, name, params, result, body⟩ := decl
  have positive : 0 < next := Nat.lt_of_le_of_lt (Nat.zero_le _) inside
  have types := plain_parameterTypes scope params
  -- The annotations come before the scope of the function, and one rule may come after its body.
  have split : ∃ before after, Plain before ∧ Plain after ∧
      function scope next ⟨mark, name, params, result, body⟩ =
        before ++ ((.openScope next .function scope :: (parameters next params ++
          [.rule (.signature ⟨mark, name, params, result, body⟩)])) ++
          (block next (next + 1) (some ⟨mark, name, params, result, body⟩) body ++ after)) ∧
      ∀ type, result = some type →
        Step.rule (.returnsAlways ⟨mark, name, params, result, body⟩ type.id) ∈ after := by
    cases result with
    | none => exact ⟨_, [], types, plain_nil, by simp [function], by simp⟩
    | some type =>
      exact ⟨_, [.rule (.returnsAlways ⟨mark, name, params, some type, body⟩ type.id)],
        plain_append.mpr ⟨types, plain_typeExpr scope type⟩, plain_single rfl,
        by simp [function], by simp⟩
  obtain ⟨before, after, plain, plainToo, steps, returnsAlways⟩ := split
  rw [steps] at owned
  have subset := owned.subset
  have own := owned.plain_left plain
  have ordered : Ordered next (.openScope next .function scope :: (parameters next params ++
      [.rule (.signature ⟨mark, name, params, result, body⟩)])) :=
    ⟨rfl, inside, ordered_append.mpr
      ⟨ordered_parameters positive (Nat.lt_succ_self _) params, trivial⟩⟩
  refine ⟨subset (by simp), ?_, ?_, subset (by simp), ?_, ?_⟩
  · rw [List.cons_append] at own
    rw [own.first_scope]
    simp [declared_parameters, plainToo.declared, declared_block next (Nat.lt_succ_self next)]
  · intro parameter member
    obtain ⟨what, found⟩ := annotated_mem_parameters next member
    exact ⟨what, subset (by simp [found])⟩
  · intro type given
    exact subset (by simp [returnsAlways type given])
  · have later := own.right ordered
    simp only [opened_openScope_cons, opened_append, opened_parameters, opened_rule_cons,
      opened_nil, Nat.add_zero] at later
    exact later.plain_right plainToo

theorem structWalked_of_owned {decl : StructDecl}
    (owned : Owned program next (struct scope next decl)) :
    StructWalked program scope next decl := by
  have subset := owned.subset
  refine ⟨subset (by simp [struct]), ?_, ?_, subset (by simp [struct])⟩
  · rw [struct, List.append_assoc] at owned
    rw [(owned.plain_cons rfl).first_scope, List.append_eq, List.nil_append]
    simp [declared_fields]
  · intro field member
    obtain ⟨what, found⟩ := annotated_mem_fields scope next decl.name member
    exact ⟨what, subset (by simp [struct, found])⟩

/-- The stretch of a method among those of the members of its box. -/
theorem owned_of_mem_boxMembers {inner : ScopeId} {owner : String} {members : List Member}
    (inside : inner < next)
    (owned : Owned program next (boxMembers scope inner next owner members)) :
    (∀ attr, .attr attr ∈ members → ∃ what, annotated attr what ∈ program) ∧
      ∀ method, .meth method ∈ members →
        ∃ home, inner < home ∧ Owned program home (function inner home method) := by
  induction members generalizing next with
  | nil => simp
  | cons member rest ih =>
    cases member with
    | attr decl =>
      have plain : Plain (typeExpr scope decl.type ++
          [annotated decl s!"type of attribute `{owner}#{decl.name}`"]) :=
        plain_append.mpr ⟨plain_typeExpr scope decl.type, by simp [Plain, annotated, isPlain]⟩
      obtain ⟨attrs, methods⟩ := ih inside (owned.plain_left plain)
      refine ⟨fun attr member => ?_, fun method member => methods method (by simpa using member)⟩
      rcases List.mem_cons.mp member with same | member
      · cases same
        exact ⟨s!"type of attribute `{owner}#{decl.name}`", owned.subset (by simp [boxMembers])⟩
      · exact attrs attr member
    | meth decl =>
      rw [boxMembers] at owned
      obtain ⟨attrs, methods⟩ := ih (Nat.lt_add_right _ inside)
        (owned.right (ordered_function inside decl))
      refine ⟨fun attr member => attrs attr (by simpa using member), fun method member => ?_⟩
      rcases List.mem_cons.mp member with same | member
      · cases same
        exact ⟨next, inside, owned.left fun home lower upper =>
          declared_boxMembers scope inner upper owner rest⟩
      · exact methods method member

theorem boxWalked_of_owned {decl : BoxDecl} (inside : scope < next)
    (owned : Owned program next (box scope next decl)) : BoxWalked program scope next decl := by
  obtain ⟨mark, name, members⟩ := decl
  have positive : 0 < next := Nat.lt_of_le_of_lt (Nat.zero_le _) inside
  have subset := owned.subset
  have ordered : Ordered next ([Step.returns mark false, .openScope next .box scope] ++
      declareMembers next members ++ [.setMembers mark.id next]) := by
    simp only [ordered_append, opened_append, opened_returns_cons, opened_openScope_cons,
      opened_nil, opened_declareMembers, Nat.add_zero]
    exact ⟨⟨⟨rfl, inside, trivial⟩,
      ordered_declareMembers positive (Nat.lt_succ_self _) members⟩,
      positive, Nat.lt_succ_self _, trivial⟩
  have later := owned.right ordered
  simp only [opened_append, opened_returns_cons, opened_openScope_cons, opened_nil,
    opened_declareMembers, opened_setMembers_cons, Nat.add_zero] at later
  obtain ⟨attrs, methods⟩ := owned_of_mem_boxMembers (Nat.lt_succ_self next) later
  refine ⟨subset (by simp [box]), ?_, ?_, subset (by simp [box]), ?_⟩
  · rw [box, List.append_assoc, List.append_assoc] at owned
    rw [(owned.plain_cons rfl).first_scope, List.append_eq, List.nil_append]
    simp [declared_declareMembers, declared_boxMembers scope next (Nat.lt_succ_self next)]
  · intro attr member
    obtain ⟨_, found, same⟩ := List.mem_filterMap.mp member
    split at same
    · cases same
      exact attrs attr found
    · cases same
  · intro method member
    obtain ⟨_, found, same⟩ := List.mem_filterMap.mp member
    split at same
    · cases same
    · cases same
      obtain ⟨home, above, part⟩ := methods method found
      exact ⟨home, functionWalked_of_owned above part⟩

end Walk

end BoxScript
