import BoxScript.Proofs.Syntax.Places
import BoxScript.Proofs.Typing.Independence
import BoxScript.Proofs.Walking.Duplicates

/-!
# What rules ask is filled

In a store that has the effects of all rules of a walk, every question that a rule of the walk may
ask has a slot (`Walk.Site.ready`). The questions are filled in this order.

1. The types of annotations, from the inside out (`Walk.ready_typeExpr`).
2. The types of what annotations and signatures declare.
3. The types of variables without annotations, by induction on the place from which a variable is
   visible: a name in its initializer only means variables that are visible earlier
   (`Walk.filled_inferred`).
4. The types of expressions, from the inside out. What is expected of an empty array is the type of
   an annotation, or that of an expression which is gone through before (`Walk.ready_expr`).
5. Whether statements return, from the inside out (`Walk.filled_stmt`).

Nothing here asks for distinct names or fitting types: a rule that fails poisons what it owes.
-/

set_option autoImplicit false

namespace BoxScript

/-- A store in which the rules of some steps have had their effect: what a rule owes is filled when
all that it may ask is filled, and so is what the steps know at once. -/
structure Step.Saturated (symbols : SymbolTable) (whole : List Step) (facts : FactStore) :
    Prop where
  rules : ∀ step ∈ whole, ∀ rule ∈ step.rules, ∀ owes,
    rule.Confined symbols facts.Filled owes → ∀ key ∈ owes, facts.Filled key
  facts : ∀ step ∈ whole, ∀ fact ∈ step.facts, facts.Filled fact.1

/-- A step whose rules ask only what is filled. -/
def Step.Ready (symbols : SymbolTable) (facts : FactStore) (step : Step) : Prop :=
  ∀ rule ∈ step.rules, ∃ owes, rule.Confined symbols facts.Filled owes

/-- Nodes of which each expression has all answers that are owed about it. -/
def FactStore.Owed (facts : FactStore) (nodes : List Node) : Prop :=
  ∀ e, .expr e ∈ nodes → ∀ key ∈ e.owes, facts.Filled key

theorem FactStore.owed_append {facts : FactStore} {first second : List Node} :
    facts.Owed (first ++ second) ↔ facts.Owed first ∧ facts.Owed second := by
  unfold Owed
  simp only [List.mem_append]
  constructor
  · intro owed
    exact ⟨fun e member => owed e (.inl member), fun e member => owed e (.inr member)⟩
  · rintro ⟨left, right⟩ e member
    exact member.elim (left e) (right e)

theorem FactStore.owed_single {facts : FactStore} {e : Expr} :
    facts.Owed [.expr e] ↔ ∀ key ∈ e.owes, facts.Filled key := by
  simp [Owed]

theorem Expr.type_mem_owes (e : Expr) : ⟨e.id, .type⟩ ∈ e.owes := by
  cases e <;> simp [owes, id, mark]

namespace Walk

open Step

variable {symbols : SymbolTable} {whole : List Step} {facts : FactStore} {scope next : ScopeId}
  {enclosing : Option FunctionDecl}

/-! ## Annotations -/

theorem ready_rule {rule : Rule} {owes : List FactKey}
    (confined : rule.Confined symbols facts.Filled owes) :
    (Step.rule rule).Ready symbols facts := by
  intro other collected
  rw [List.mem_singleton.mp collected]
  exact ⟨owes, confined⟩

theorem filled_of_rule (saturated : Saturated symbols whole facts) {rule : Rule}
    {owes : List FactKey} (member : .rule rule ∈ whole)
    (confined : rule.Confined symbols facts.Filled owes) : ∀ key ∈ owes, facts.Filled key :=
  saturated.rules _ member rule List.mem_cons_self owes confined

/-- The parts of an annotation have types before it asks for them. -/
theorem ready_typeExpr (saturated : Saturated symbols whole facts) {type : TypeExpr}
    (walked : typeExpr scope type ⊆ whole) :
    (∀ step ∈ typeExpr scope type, step.Ready symbols facts) ∧ facts.Filled ⟨type.id, .type⟩ := by
  induction type with
  | named mark name =>
    have confined : ((TypeExpr.named mark name).rule scope).Confined symbols facts.Filled _ :=
      TypeExpr.rule_confined (by simp)
    refine ⟨?_, ?_⟩
    · intro step member rule collected
      rw [List.mem_singleton.mp member] at collected
      rw [List.mem_singleton.mp collected]
      exact ⟨_, confined⟩
    · exact saturated.rules _ (walked List.mem_cons_self) _ List.mem_cons_self _ confined _
        List.mem_cons_self
  | array mark component ih =>
    rw [typeExpr, List.append_subset] at walked
    obtain ⟨inside, filled⟩ := ih walked.1
    have confined : ((TypeExpr.array mark component).rule scope).Confined symbols facts.Filled _ :=
      TypeExpr.rule_confined (by rintro _ _ ⟨⟩; exact filled)
    refine ⟨?_, ?_⟩
    · intro step member
      rcases List.mem_append.mp member with inner | own
      · exact inside step inner
      · intro rule collected
        rw [List.mem_singleton.mp own] at collected
        rw [List.mem_singleton.mp collected]
        exact ⟨_, confined⟩
    · exact saturated.rules _ (walked.2 List.mem_cons_self) _ List.mem_cons_self _ confined _
        List.mem_cons_self

theorem filled_of_typeWalked (saturated : Saturated symbols whole facts) {type : TypeExpr}
    (walked : TypeWalked whole type) : facts.Filled ⟨type.id, .type⟩ := by
  obtain ⟨scope, steps⟩ := walked
  exact (ready_typeExpr saturated steps).2

/-! ## Expressions -/

/-- The names among some nodes mean declarations whose types are filled. -/
def NamesFilled (symbols : SymbolTable) (facts : FactStore) (scope : ScopeId) (nodes : List Node) :
    Prop :=
  ∀ mark name, .expr (.symbol mark name) ∈ nodes →
    symbols.AsksName facts.Filled scope name mark.span.start.offset

theorem namesFilled_append {first second : List Node} :
    NamesFilled symbols facts scope (first ++ second) ↔
      NamesFilled symbols facts scope first ∧ NamesFilled symbols facts scope second := by
  unfold NamesFilled
  simp only [List.mem_append]
  constructor
  · intro names
    exact ⟨fun mark name member => names mark name (.inl member),
      fun mark name member => names mark name (.inr member)⟩
  · rintro ⟨left, right⟩ mark name member
    exact member.elim (left mark name) (right mark name)

/-- An expression whose rule asks only what is filled gives the answers that are owed about it. -/
theorem ready_own (saturated : Saturated symbols whole facts)
    (members : symbols.AsksMembers facts.Filled) {expectation : Expectation} {e : Expr}
    (member : .expr scope expectation e ∈ whole)
    (asked : e.Asks symbols facts.Filled scope expectation) :
    (Step.expr scope expectation e).Ready symbols facts ∧ facts.Owed [.expr e] := by
  rw [FactStore.owed_single]
  cases found : e.finding scope expectation with
  | known ty =>
    constructor
    · simp [Ready, Step.rules, found]
    · have owes : e.owes = [⟨e.id, .type⟩] := by
        cases e <;> first | rfl | cases found
      rw [owes]
      intro key owed
      rw [List.mem_singleton.mp owed]
      exact saturated.facts _ member (⟨e.id, .type⟩, .type ty) (by simp [Step.facts, found])
  | rule rule =>
    have collected : (Step.expr scope expectation e).rules = [rule] := by
      simp only [Step.rules, found]
    have confined := Expr.rule_confined members asked found
    constructor
    · intro other inside
      rw [collected] at inside
      rw [List.mem_singleton.mp inside]
      exact ⟨_, confined⟩
    · exact saturated.rules _ member rule (by rw [collected]; exact List.mem_cons_self) _ confined

/-- The answers about an expression that others ask for. -/
theorem filled_of_owed {e : Expr} (owed : facts.Owed e.nodes) : facts.Filled ⟨e.id, .type⟩ :=
  owed e e.mem_nodes_self _ e.type_mem_owes

theorem asksTarget_of_owed {target : Expr} (owed : facts.Owed target.nodes) :
    Rule.AsksTarget facts.Filled target where
  bare := owed _ (target.nodes_bare_subset target.bare.mem_nodes_self)
  receiver := by
    intro mark receiver name is
    apply filled_of_owed
    intro e member
    have inside : .expr e ∈ target.bare.nodes := by
      rw [is]
      exact List.mem_append_left _ member
    exact owed e (target.nodes_bare_subset inside)

/-- An expression is gone through after its parts. -/
theorem ready_after (saturated : Saturated symbols whole facts)
    (members : symbols.AsksMembers facts.Filled) {inside : List Step} {parts : List Node}
    {expectation : Expectation} {e : Expr}
    (before : (∀ step ∈ inside, step.Ready symbols facts) ∧ facts.Owed parts)
    (walked : inside ++ [.expr scope expectation e] ⊆ whole)
    (asked : e.Asks symbols facts.Filled scope expectation) :
    (∀ step ∈ inside ++ [.expr scope expectation e], step.Ready symbols facts) ∧
      facts.Owed (parts ++ [.expr e]) := by
  rw [List.append_subset] at walked
  obtain ⟨own, owed⟩ := ready_own saturated members (walked.2 List.mem_cons_self) asked
  rw [List.forall_mem_append, List.forall_mem_singleton, FactStore.owed_append]
  exact ⟨⟨before.1, own⟩, before.2, owed⟩

/-- An expression without parts is gone through alone. -/
theorem ready_leaf (saturated : Saturated symbols whole facts)
    (members : symbols.AsksMembers facts.Filled) {expectation : Expectation} {e : Expr}
    (walked : [.expr scope expectation e] ⊆ whole)
    (asked : e.Asks symbols facts.Filled scope expectation) :
    (∀ step ∈ [Step.expr scope expectation e], step.Ready symbols facts) ∧
      facts.Owed [.expr e] := by
  obtain ⟨own, owed⟩ := ready_own saturated members (walked List.mem_cons_self) asked
  exact ⟨List.forall_mem_singleton.mpr own, owed⟩

/-- Parts that are gone through one after the other. -/
theorem ready_both {first second : List Step} {left right : List Node}
    (before : (∀ step ∈ first, step.Ready symbols facts) ∧ facts.Owed left)
    (after : (∀ step ∈ second, step.Ready symbols facts) ∧ facts.Owed right) :
    (∀ step ∈ first ++ second, step.Ready symbols facts) ∧ facts.Owed (left ++ right) := by
  rw [List.forall_mem_append, FactStore.owed_append]
  exact ⟨⟨before.1, after.1⟩, before.2, after.2⟩

mutual

/-- The parts of an expression have types before it asks for them, and what is expected of an array
without elements is known before it is needed. -/
theorem ready_expr (saturated : Saturated symbols whole facts)
    (members : symbols.AsksMembers facts.Filled) (scope : ScopeId) :
    ∀ (e : Expr) (expectation : Expectation), expectation.Asks facts.Filled →
    NamesFilled symbols facts scope e.nodes → expr scope expectation e ⊆ whole →
    (∀ step ∈ expr scope expectation e, step.Ready symbols facts) ∧ facts.Owed e.nodes
  | .array mark elements => by
    intro expectation expected names walked
    simp only [expr, Expr.nodes, namesFilled_append] at walked names ⊢
    obtain ⟨inside, each⟩ := ready_exprs saturated members scope elements (.element expectation)
      expected names.1 (List.append_subset.mp walked).1
    refine ready_after saturated members inside walked ⟨?_, expected, by simp, by simp⟩
    simpa [Expr.asked] using each
  | .paren mark inner => by
    intro expectation expected names walked
    simp only [expr, Expr.nodes, namesFilled_append] at walked names ⊢
    have inside := ready_expr saturated members scope inner expectation expected names.1
      (List.append_subset.mp walked).1
    refine ready_after saturated members inside walked ⟨?_, expected, by simp, by simp⟩
    simp [Expr.asked, filled_of_owed inside.2]
  | .unary mark op operand => by
    intro expectation expected names walked
    simp only [expr, Expr.nodes, namesFilled_append] at walked names ⊢
    have inside := ready_expr saturated members scope operand .none trivial names.1
      (List.append_subset.mp walked).1
    refine ready_after saturated members inside walked ⟨?_, expected, by simp, by simp⟩
    simp [Expr.asked, filled_of_owed inside.2]
  | .binary mark op left right => by
    intro expectation expected names walked
    simp only [expr, Expr.nodes, namesFilled_append] at walked names ⊢
    obtain ⟨leftSteps, rightSteps⟩ := List.append_subset.mp (List.append_subset.mp walked).1
    have first := ready_expr saturated members scope left .none trivial names.1.1 leftSteps
    have second := ready_expr saturated members scope right .none trivial names.1.2 rightSteps
    refine ready_after saturated members (ready_both first second) walked
      ⟨?_, expected, by simp, by simp⟩
    simp [Expr.asked, filled_of_owed first.2, filled_of_owed second.2]
  | .assign mark target value => by
    intro expectation expected names walked
    simp only [expr, Expr.nodes, namesFilled_append] at walked names ⊢
    obtain ⟨targetSteps, valueSteps⟩ := List.append_subset.mp (List.append_subset.mp walked).1
    have first := ready_expr saturated members scope target .none trivial names.1.1 targetSteps
    have second := ready_expr saturated members scope value (.type target.id)
      (filled_of_owed first.2) names.1.2 valueSteps
    refine ready_after saturated members (ready_both first second) walked
      ⟨?_, expected, by simp, ?_⟩
    · simp [Expr.asked, filled_of_owed first.2, filled_of_owed second.2]
    · rintro _ _ _ ⟨⟩
      exact asksTarget_of_owed first.2
  | .call mark callee given => by
    intro expectation expected names walked
    simp only [expr, Expr.nodes, namesFilled_append] at walked names ⊢
    obtain ⟨calleeSteps, givenSteps⟩ := List.append_subset.mp (List.append_subset.mp walked).1
    have first := ready_expr saturated members scope callee .none trivial names.1.1 calleeSteps
    obtain ⟨second, each⟩ := ready_arguments saturated members scope given callee.id 0
      (filled_of_owed first.2) names.1.2 givenSteps
    refine ready_after saturated members (ready_both first second) walked
      ⟨?_, expected, by simp, by simp⟩
    simpa [Expr.asked, filled_of_owed first.2] using each
  | .index mark owner place => by
    intro expectation expected names walked
    simp only [expr, Expr.nodes, namesFilled_append] at walked names ⊢
    obtain ⟨ownerSteps, placeSteps⟩ := List.append_subset.mp (List.append_subset.mp walked).1
    have first := ready_expr saturated members scope owner .none trivial names.1.1 ownerSteps
    have second := ready_expr saturated members scope place .none trivial names.1.2 placeSteps
    refine ready_after saturated members (ready_both first second) walked
      ⟨?_, expected, by simp, by simp⟩
    simp [Expr.asked, filled_of_owed first.2, filled_of_owed second.2]
  | .field mark receiver name | .member mark receiver name => by
    intro expectation expected names walked
    simp only [expr, Expr.nodes, namesFilled_append] at walked names ⊢
    have inside := ready_expr saturated members scope receiver .none trivial names.1
      (List.append_subset.mp walked).1
    refine ready_after saturated members inside walked ⟨?_, expected, by simp, by simp⟩
    simp [Expr.asked, filled_of_owed inside.2]
  | .symbol mark name => by
    intro expectation expected names walked
    refine ready_leaf saturated members walked ⟨by simp [Expr.asked], expected, ?_, by simp⟩
    rintro _ _ ⟨⟩
    exact names mark name List.mem_cons_self
  | .int _ _ | .float _ _ | .string _ _ | .bool _ _ | .null _ | .constructor _ _
  | .create _ _ => by
    intro expectation expected names walked
    exact ready_leaf saturated members walked
      ⟨by simp [Expr.asked], expected, by simp, by simp⟩

theorem ready_exprs (saturated : Saturated symbols whole facts)
    (members : symbols.AsksMembers facts.Filled) (scope : ScopeId) :
    ∀ (es : List Expr) (expectation : Expectation), expectation.Asks facts.Filled →
    NamesFilled symbols facts scope (Expr.nodesOfAll es) → exprs scope expectation es ⊆ whole →
    ((∀ step ∈ exprs scope expectation es, step.Ready symbols facts) ∧
      facts.Owed (Expr.nodesOfAll es)) ∧ ∀ e ∈ es, facts.Filled ⟨e.id, .type⟩
  | [] => by
    intro expectation expected names walked
    simp [exprs, Expr.nodesOfAll, FactStore.Owed]
  | e :: rest => by
    intro expectation expected names walked
    simp only [exprs, Expr.nodesOfAll, namesFilled_append, List.append_subset] at walked names ⊢
    have first := ready_expr saturated members scope e expectation expected names.1 walked.1
    obtain ⟨others, each⟩ := ready_exprs saturated members scope rest expectation expected names.2
      walked.2
    exact ⟨ready_both first others, List.forall_mem_cons.mpr ⟨filled_of_owed first.2, each⟩⟩

theorem ready_arguments (saturated : Saturated symbols whole facts)
    (members : symbols.AsksMembers facts.Filled) (scope : ScopeId) :
    ∀ (es : List Expr) (callee : NodeId) (index : Nat), facts.Filled ⟨callee, .type⟩ →
    NamesFilled symbols facts scope (Expr.nodesOfAll es) →
    arguments scope callee index es ⊆ whole →
    ((∀ step ∈ arguments scope callee index es, step.Ready symbols facts) ∧
      facts.Owed (Expr.nodesOfAll es)) ∧ ∀ e ∈ es, facts.Filled ⟨e.id, .type⟩
  | [] => by
    intro callee index filled names walked
    simp [arguments, Expr.nodesOfAll, FactStore.Owed]
  | e :: rest => by
    intro callee index filled names walked
    simp only [arguments, Expr.nodesOfAll, namesFilled_append, List.append_subset]
      at walked names ⊢
    have first := ready_expr saturated members scope e (.param callee index) filled names.1
      walked.1
    obtain ⟨others, each⟩ := ready_arguments saturated members scope rest callee (index + 1) filled
      names.2 walked.2
    exact ⟨ready_both first others, List.forall_mem_cons.mpr ⟨filled_of_owed first.2, each⟩⟩

end

/-! ## Names and members -/

/-- What is known of the walk over a program that is read from a source: where each step comes from,
which declarations the table has taken, and where the names of an initializer stand. -/
structure Surveyed (symbols : SymbolTable) (whole kept : List Step) (nodes : List Node) : Prop where
  sited : Sited whole nodes whole
  thinned : Thinned kept whole
  ordered : Ordered 1 kept
  reflects : symbols.Reflects kept
  placed : ∀ mark name value, .stmt (.var ⟨mark, name, .inferred value⟩) ∈ nodes →
    ∀ inner text, .expr (.symbol inner text) ∈ value.nodes →
      inner.span.start.offset < mark.span.stop.offset

section

variable {kept : List Step} {nodes : List Node}

theorem Surveyed.opened (surveyed : Surveyed symbols whole kept nodes) {kind : ScopeKind}
    {parent : ScopeId} (member : .openScope scope kind parent ∈ whole) :
    ∃ found, symbols.scopes[scope]? = some found ∧ found.kind = kind := by
  obtain ⟨names, order, present⟩ := surveyed.reflects.opened (surveyed.thinned.others _ member rfl)
  exact ⟨_, present, rfl⟩

/-- The names of a scope become visible one after another, or all at once. -/
theorem Surveyed.not_sequential (surveyed : Surveyed symbols whole kept nodes) {kind : ScopeKind}
    {parent : ScopeId} (member : .openScope scope kind parent ∈ whole)
    (unordered : kind.isSequential = false) : ¬ Sequential whole scope := by
  rintro ⟨other, around, opened, sequential⟩
  obtain ⟨found, present, rfl⟩ := surveyed.opened member
  obtain ⟨again, presentToo, rfl⟩ := surveyed.opened opened
  rw [present] at presentToo
  cases presentToo
  rw [unordered] at sequential
  cases sequential

/-- A declaration of the table with a node is made by a step. -/
theorem Surveyed.declares (surveyed : Surveyed symbols whole kept nodes) {decl : Declaration}
    {node : NodeId} (holds : decl ∈ contents scope kept) (is : decl.node = some node) :
    ∃ mark, .declare scope decl.name decl.kind mark decl.visibleFrom ∈ whole ∧ mark.id = node := by
  rcases mem_contents_cases holds with ⟨_, builtin⟩ | declared
  · obtain ⟨_, _, rfl⟩ := List.mem_map.mp builtin
    cases is
  · obtain ⟨name, kind, mark, position, member, rfl⟩ := mem_declared.mp declared
    cases is
    exact ⟨mark, surveyed.thinned.subset member, rfl⟩

/-- The type of what a step declares is filled, unless the step declares a type, or a variable
without an annotation. -/
theorem filled_or_inferred (saturated : Saturated symbols whole facts) {name : String}
    {kind : DeclKind} {mark : Mark} {position : Nat}
    (site : Site whole nodes (.declare scope name kind mark position)) :
    facts.Filled ⟨mark.id, .declType⟩ ∨ Sequential whole scope ∧ (kind.isType = true ∨
      position = mark.span.stop.offset ∧
        ∃ value, InferredWalked whole nodes scope mark name value) := by
  cases site with
  | typeExpr walked member =>
    obtain ⟨_, is⟩ := annotations_typeExpr _ _ _ member
    cases is
  | expr walked member =>
    obtain ⟨_, _, is⟩ := expressions_expr _ _ _ _ member
    cases is
  | declareType home isType => exact .inr ⟨home, .inl isType⟩
  | declareAnnotated _ walked rule =>
    left
    exact filled_of_rule saturated rule
      (Rule.annotated_confined (filled_of_typeWalked saturated walked)) _ List.mem_cons_self
  | declareFunction _ walked =>
    left
    refine filled_of_rule saturated walked.signature (Rule.signature_confined ?_ ?_) _
      List.mem_cons_self
    · intro parameter member
      exact filled_of_typeWalked saturated (walked.parameters parameter member)
    · intro type is
      exact filled_of_typeWalked saturated (walked.result type is)
  | declareInferred walked => exact .inr ⟨walked.home, .inr ⟨rfl, _, walked⟩⟩

/-- The types of members are filled: members are annotated. -/
theorem filled_member (saturated : Saturated symbols whole facts)
    (surveyed : Surveyed symbols whole kept nodes) {owner : NodeId}
    (member : .setMembers owner scope ∈ whole) {decl : Declaration} {node : NodeId}
    (holds : decl ∈ contents scope kept) (is : decl.node = some node) :
    facts.Filled ⟨node, .declType⟩ := by
  obtain ⟨mark, declares, rfl⟩ := surveyed.declares holds is
  rcases filled_or_inferred saturated (surveyed.sited _ declares) with filled | ⟨home, _⟩
  · exact filled
  · cases surveyed.sited _ member with
    | members opened unordered => exact absurd home (surveyed.not_sequential opened unordered)
    | typeExpr walked inside =>
      obtain ⟨_, is⟩ := annotations_typeExpr _ _ _ inside
      cases is
    | expr walked inside =>
      obtain ⟨_, _, is⟩ := expressions_expr _ _ _ _ inside
      cases is

theorem filled_members (saturated : Saturated symbols whole facts)
    (surveyed : Surveyed symbols whole kept nodes) : symbols.AsksMembers facts.Filled where
  all := by
    intro owner decl member node is
    obtain ⟨scope, owns, holds⟩ := surveyed.reflects.mem_members member
    exact filled_member saturated surveyed (surveyed.thinned.subset owns) holds is
  lookup := by
    intro owner name id decl node found present is
    obtain ⟨scope, looked, declares⟩ := Option.bind_eq_some_iff.mp found
    obtain ⟨meant, holds, same, _⟩ := surveyed.reflects.declaredIn declares
    rw [present] at same
    cases same
    exact filled_member saturated surveyed
      (surveyed.thinned.subset (surveyed.reflects.lookup_memberScopes looked)) holds is

/-- The type of what a name means is filled, if those of the variables without annotations are that
are visible where the name stands. -/
theorem asksName_of_earlier (saturated : Saturated symbols whole facts)
    (surveyed : Surveyed symbols whole kept nodes) {position : Nat}
    (earlier : ∀ home mark name value, InferredWalked whole nodes home mark name value →
      mark.span.stop.offset ≤ position → facts.Filled ⟨mark.id, .declType⟩) (name : String) :
    symbols.AsksName facts.Filled scope name position := by
  intro id decl node looked present value is
  obtain ⟨_, home, _, _, declared, visible, _⟩ := SymbolTable.lookupAlong_eq_ok looked
  obtain ⟨meant, holds, same, _⟩ := surveyed.reflects.declaredIn declared
  rw [present] at same
  cases same
  obtain ⟨mark, declares, rfl⟩ := surveyed.declares holds is
  rcases filled_or_inferred saturated (surveyed.sited _ declares) with
    filled | ⟨⟨kind, parent, opened, sequential⟩, isType | ⟨stop, initial, walked⟩⟩
  · exact filled
  · rw [value] at isType
    cases isType
  · apply earlier home mark _ initial walked
    obtain ⟨found, here, rfl⟩ := surveyed.opened opened
    rw [← stop]
    simpa [SymbolTable.isVisible, here, present, sequential] using visible

/-- The types of variables without annotations are filled. The induction is on the places from which
they are visible: an initializer only has names of variables that are visible before. -/
theorem filled_inferred (saturated : Saturated symbols whole facts)
    (surveyed : Surveyed symbols whole kept nodes) (bound : Nat) :
    ∀ home mark name value, InferredWalked whole nodes home mark name value →
      mark.span.stop.offset ≤ bound → facts.Filled ⟨mark.id, .declType⟩ := by
  induction bound using Nat.strongRecOn with
  | ind bound ih =>
    intro home mark name value walked within
    have names : NamesFilled symbols facts home value.nodes := by
      intro inner text inside
      have before := surveyed.placed mark name value walked.node inner text inside
      exact asksName_of_earlier saturated surveyed
        (ih inner.span.start.offset (Nat.lt_of_lt_of_le before within)) text
    have owed := (ready_expr saturated (filled_members saturated surveyed) home value .none trivial
      names walked.walked.walked).2
    exact filled_of_rule saturated walked.rule (Rule.inferred_confined (filled_of_owed owed)) _
      List.mem_cons_self

theorem namesFilled (saturated : Saturated symbols whole facts)
    (surveyed : Surveyed symbols whole kept nodes) (parts : List Node) :
    NamesFilled symbols facts scope parts := by
  intro mark name _
  apply asksName_of_earlier saturated surveyed
  intro home inner text value walked _
  exact filled_inferred saturated surveyed _ home inner text value walked (Nat.le_refl _)

/-! ## Statements -/

theorem filled_returns (saturated : Saturated symbols whole facts) {mark : Mark} {value : Bool}
    (member : .returns mark value ∈ whole) : facts.Filled ⟨mark.id, .returns⟩ :=
  saturated.facts _ member _ List.mem_cons_self

mutual

/-- Whether a statement returns is filled when it is for the statements inside. -/
theorem filled_stmt (saturated : Saturated symbols whole facts) : ∀ (s : Stmt)
    (scope next : ScopeId) (enclosing : Option FunctionDecl), stmt scope next enclosing s ⊆ whole →
    facts.Filled ⟨s.id, .returns⟩
  | .block ⟨mark, body⟩ => by
    intro scope next enclosing walked
    simp only [stmt, block, List.append_subset, List.cons_subset] at walked
    obtain ⟨_, ⟨_, statements⟩, rule, _⟩ := walked
    have each := filled_stmts saturated body next (next + 1) enclosing statements
    have confined : (Rule.blockReturns mark (body.getLast?.map Stmt.id)).Confined symbols
        facts.Filled [⟨mark.id, .returns⟩] := by
      apply Rule.blockReturns_confined
      intro node is
      obtain ⟨last, inside, rfl⟩ := Option.map_eq_some_iff.mp is
      exact each last (List.mem_of_getLast? inside)
    exact filled_of_rule saturated rule confined _ List.mem_cons_self
  | .ifElse mark condition thenBody none => by
    intro scope next enclosing walked
    simp only [stmt, List.append_subset, List.cons_subset] at walked
    have confined : (Rule.branchesReturn mark thenBody.id none).Confined symbols facts.Filled
        [⟨mark.id, .returns⟩] :=
      Rule.branchesReturn_confined (filled_stmt saturated thenBody _ _ _ walked.1.2) (by simp)
    exact filled_of_rule saturated walked.2.1 confined _ List.mem_cons_self
  | .ifElse mark condition thenBody (some elseBody) => by
    intro scope next enclosing walked
    simp only [stmt, List.append_subset, List.cons_subset] at walked
    obtain ⟨⟨⟨⟨_, _, first⟩, _⟩, second⟩, rule, _⟩ := walked
    have confined : (Rule.branchesReturn mark thenBody.id (some elseBody.id)).Confined symbols
        facts.Filled [⟨mark.id, .returns⟩] := by
      apply Rule.branchesReturn_confined (filled_stmt saturated thenBody _ _ _ first)
      rintro _ ⟨⟩
      exact filled_stmt saturated elseBody _ _ _ second
    exact filled_of_rule saturated rule confined _ List.mem_cons_self
  | .expression mark _ | .while mark _ _ => by
    intro scope next enclosing walked
    have member : .returns mark false ∈ whole := walked (by simp [stmt])
    exact filled_returns saturated member
  | .var ⟨mark, name, form⟩ => by
    intro scope next enclosing walked
    have member : .returns mark false ∈ whole := by
      apply walked
      cases form with
      | inferred value => simp [stmt, varDecl]
      | typed type value => cases value <;> simp [stmt, varDecl]
    exact filled_returns saturated member
  | .function decl => by
    intro scope next enclosing walked
    have member : .returns decl.mark false ∈ whole := walked (by simp [stmt])
    exact filled_returns saturated member
  | .struct decl => by
    intro scope next enclosing walked
    have member : .returns decl.mark false ∈ whole := walked (by simp [stmt, struct])
    exact filled_returns saturated member
  | .box ⟨mark, name, members⟩ => by
    intro scope next enclosing walked
    have member : .returns mark false ∈ whole := walked (by simp [stmt, box])
    exact filled_returns saturated member
  | .return mark value => by
    intro scope next enclosing walked
    have member : .returns mark true ∈ whole := walked (by simp [stmt])
    exact filled_returns saturated member

theorem filled_stmts (saturated : Saturated symbols whole facts) : ∀ (body : List Stmt)
    (scope next : ScopeId) (enclosing : Option FunctionDecl),
    stmts scope next enclosing body ⊆ whole → ∀ s ∈ body, facts.Filled ⟨s.id, .returns⟩
  | [] => by simp
  | s :: rest => by
    intro scope next enclosing walked
    simp only [stmts, List.append_subset] at walked
    exact List.forall_mem_cons.mpr ⟨filled_stmt saturated s _ _ _ walked.1,
      filled_stmts saturated rest _ _ _ walked.2⟩

end

/-- The rule of each step asks only what is filled. -/
theorem Site.ready (saturated : Saturated symbols whole facts)
    (surveyed : Surveyed symbols whole kept nodes) {step : Step} (site : Site whole nodes step) :
    step.Ready symbols facts := by
  have members := filled_members saturated surveyed
  have gone : ∀ {scope : ScopeId} {expectation : Expectation} {e : Expr},
      ExprWalked whole nodes scope expectation e →
      (∀ step ∈ Walk.expr scope expectation e, step.Ready symbols facts) ∧ facts.Owed e.nodes := by
    intro scope expectation e walked
    have expected : expectation.Asks facts.Filled := by
      rcases walked.expected with rfl | ⟨type, typeWalked, rfl⟩
      · trivial
      · exact filled_of_typeWalked saturated typeWalked
    exact ready_expr saturated members scope e expectation expected
      (namesFilled saturated surveyed e.nodes) walked.walked
  have filled : ∀ {scope : ScopeId} {expectation : Expectation} {e : Expr},
      ExprWalked whole nodes scope expectation e → facts.Filled ⟨e.id, .type⟩ :=
    fun walked => filled_of_owed (gone walked).2
  have typed : ∀ {type : TypeExpr}, TypeWalked whole type → facts.Filled ⟨type.id, .type⟩ :=
    fun walked => filled_of_typeWalked saturated walked
  have returns : ∀ {s : Stmt}, StmtWalked whole s → facts.Filled ⟨s.id, .returns⟩ := by
    rintro s ⟨scope, next, enclosing, walked⟩
    exact filled_stmt saturated s scope next enclosing walked
  cases site with
  | openScope | returns | members | declareType | declareAnnotated | declareFunction
  | declareInferred => simp [Ready, Step.rules]
  | typeExpr walked member => exact (ready_typeExpr saturated walked).1 _ member
  | expr walked member => exact (gone walked).1 _ member
  | annotated walked => exact ready_rule (Rule.annotated_confined (typed walked))
  | initializer typeWalked walked =>
    exact ready_rule (Rule.initializer_confined (typed typeWalked) (filled walked))
  | inferred walked => exact ready_rule (Rule.inferred_confined (filled walked))
  | signature walked =>
    exact ready_rule (Rule.signature_confined
      (fun parameter member => typed (walked.parameters parameter member))
      fun type is => typed (walked.result type is))
  | returnsAlways typeWalked body =>
    exact ready_rule (Rule.returnsAlways_confined (typed typeWalked) (returns body))
  | condition walked => exact ready_rule (Rule.condition_confined (filled walked))
  | blockReturns walked =>
    apply ready_rule (Rule.blockReturns_confined _)
    intro node is
    obtain ⟨last, lastIs, rfl⟩ := Option.map_eq_some_iff.mp is
    exact returns (walked last lastIs)
  | branchesReturn thenWalked elseWalked =>
    apply ready_rule (Rule.branchesReturn_confined (returns thenWalked) _)
    intro node is
    obtain ⟨other, otherIs, rfl⟩ := Option.map_eq_some_iff.mp is
    exact returns (elseWalked other otherIs)
  | returned result walked =>
    refine ready_rule (Rule.returned_confined (fun type is => typed (result type is)) ?_)
    intro e is
    obtain ⟨scope, expectation, here⟩ := walked e is
    exact filled here

end

end Walk

end BoxScript
