import BoxScript.Proofs.Rules.Characterization
import BoxScript.Proofs.Rules.Solving
import BoxScript.Proofs.Syntax.Places
import BoxScript.Proofs.Walking.Lookup
import BoxScript.Proofs.Walking.Ownership

/-!
# Accepted programs

What is known of a program that passes the analysis (`Analysis.Accepted`): the steps of the walk
over it use each node once in each role, the symbol table reflects them, every rule that they
collect holds, and what they know at once is noted. That is all that follows from acceptance and is
used afterwards (`accepted_of_checkSource`).
-/

set_option autoImplicit false

namespace BoxScript

/-! ## The rules that the walk collects -/

namespace Step

/-- Steps that collect regular rules only. -/
def Regular (symbols : SymbolTable) (steps : List Step) : Prop :=
  ∀ step ∈ steps, ∀ rule ∈ step.rules, rule.IsRegular symbols

variable {symbols : SymbolTable}

theorem regular_append {first second : List Step} :
    Regular symbols (first ++ second) ↔ Regular symbols first ∧ Regular symbols second :=
  List.forall_mem_append

theorem regular_cons {step : Step} {steps : List Step} :
    Regular symbols (step :: steps) ↔
      (∀ rule ∈ step.rules, rule.IsRegular symbols) ∧ Regular symbols steps :=
  List.forall_mem_cons

theorem regular_nil : Regular symbols [] := by simp [Regular]

theorem regular_rule {rule : Rule} (regular : rule.IsRegular symbols) :
    Regular symbols [.rule rule] := by
  simpa [Regular, rules] using regular

theorem regular_typeExpr (coherent : symbols.Coherent) (scope : ScopeId) (type : TypeExpr) :
    Regular symbols [.typeExpr scope type] := by
  cases type with
  | named mark name => simpa [Regular, rules, TypeExpr.rule] using Rule.typeName_isRegular coherent
  | array mark component => simpa [Regular, rules, TypeExpr.rule] using Rule.arrayType_isRegular

theorem rules_expr_isRegular (coherent : symbols.Coherent) (scope : ScopeId)
    (expectation : Expectation) (e : Expr) :
    ∀ rule ∈ (Step.expr scope expectation e).rules, rule.IsRegular symbols := by
  simp only [rules]
  cases e with
  | symbol mark name => simpa [Expr.finding] using Rule.symbol_isRegular coherent
  | constructor mark name => simpa [Expr.finding] using Rule.constructor_isRegular coherent
  | create mark name => simpa [Expr.finding] using Rule.create_isRegular coherent
  | array mark elements => simpa [Expr.finding] using Rule.array_isRegular
  | paren mark inner => simpa [Expr.finding] using Rule.paren_isRegular
  | unary mark op operand => simpa [Expr.finding] using Rule.unary_isRegular
  | binary mark op left right => simpa [Expr.finding] using Rule.binary_isRegular
  | assign mark target value => simpa [Expr.finding] using Rule.assign_isRegular
  | call mark callee given => simpa [Expr.finding] using Rule.call_isRegular
  | index mark owner place => simpa [Expr.finding] using Rule.index_isRegular
  | field mark receiver name => simpa [Expr.finding] using Rule.field_isRegular coherent
  | member mark receiver name => simpa [Expr.finding] using Rule.member_isRegular coherent
  | _ => simp [Expr.finding]

/-- Steps that do not collect a rule. -/
theorem regular_quiet {steps : List Step} (quiet : ∀ step ∈ steps, step.rules = []) :
    Regular symbols steps := by
  intro step member rule collected
  rw [quiet step member] at collected
  cases collected

end Step

namespace Walk

open Step

variable {symbols : SymbolTable}

theorem regular_typeExpr (coherent : symbols.Coherent) (scope : ScopeId) (type : TypeExpr) :
    Regular symbols (typeExpr scope type) := by
  induction type with
  | named mark name => exact Step.regular_typeExpr coherent scope _
  | array mark component ih =>
    exact regular_append.mpr ⟨ih, Step.regular_typeExpr coherent scope _⟩

theorem regular_expr (coherent : symbols.Coherent) (scope : ScopeId) (expectation : Expectation)
    (e : Expr) : Regular symbols (expr scope expectation e) := by
  intro step member
  obtain ⟨found, inner, rfl⟩ := expressions_expr scope expectation e step member
  exact rules_expr_isRegular coherent scope found inner

theorem regular_annotated (name : TypedName) (what : String) :
    Regular symbols [annotated name what] :=
  regular_rule Rule.annotated_isRegular

theorem regular_hoist (scope : ScopeId) (body : List Stmt) :
    Regular symbols (hoist scope body) := by
  induction body with
  | nil => exact regular_nil
  | cons s rest ih =>
    cases s <;> first | exact ih | exact regular_cons.mpr ⟨by simp [rules], ih⟩

theorem regular_varDecl (coherent : symbols.Coherent) (scope : ScopeId) (decl : VariableDecl) :
    Regular symbols (varDecl scope decl) := by
  obtain ⟨mark, name, form⟩ := decl
  have declared : Regular symbols [.declare scope name .var mark mark.span.stop.offset,
      .returns mark false] := regular_quiet (by simp [rules])
  cases form with
  | typed type value =>
    have types := regular_typeExpr coherent scope type
    cases value with
    | none =>
      rw [varDecl, regular_append, regular_append]
      exact ⟨⟨types, declared⟩, regular_annotated _ _⟩
    | some value =>
      rw [varDecl, regular_append, regular_append, regular_append]
      exact ⟨⟨⟨types, regular_expr coherent scope _ value⟩, declared⟩,
        regular_append.mpr ⟨regular_annotated _ _, regular_rule Rule.initializer_isRegular⟩⟩
  | inferred value =>
    rw [varDecl, regular_append, regular_append]
    exact ⟨⟨regular_expr coherent scope _ value, declared⟩, regular_rule Rule.inferred_isRegular⟩

theorem regular_fields (coherent : symbols.Coherent) (scope inner : ScopeId) (owner : String)
    (names : List TypedName) : Regular symbols (fields scope inner owner names) := by
  induction names with
  | nil => exact regular_nil
  | cons name rest ih =>
    rw [fields, regular_append, regular_append]
    exact ⟨⟨regular_typeExpr coherent scope _,
      regular_cons.mpr ⟨by simp [rules], regular_annotated _ _⟩⟩, ih⟩

theorem regular_parameterTypes (coherent : symbols.Coherent) (scope : ScopeId)
    (names : List TypedName) : Regular symbols (parameterTypes scope names) := by
  induction names with
  | nil => exact regular_nil
  | cons name rest ih => exact regular_append.mpr ⟨regular_typeExpr coherent scope _, ih⟩

theorem regular_parameters (scope : ScopeId) (names : List TypedName) :
    Regular symbols (parameters scope names) := by
  induction names with
  | nil => exact regular_nil
  | cons name rest ih =>
    exact regular_append.mpr ⟨regular_cons.mpr ⟨by simp [rules], regular_annotated _ _⟩, ih⟩

theorem regular_declareMembers (scope : ScopeId) (members : List Member) :
    Regular symbols (declareMembers scope members) := by
  induction members with
  | nil => exact regular_nil
  | cons member rest ih => cases member <;> exact regular_cons.mpr ⟨by simp [rules], ih⟩

theorem regular_openBody (scope next : ScopeId) (s : Stmt) :
    Regular symbols (openBody scope next s) := by
  cases s with
  | block b => exact regular_nil
  | _ => exact regular_cons.mpr ⟨by simp [rules], regular_hoist next _⟩

mutual

theorem regular_stmt (coherent : symbols.Coherent) (scope next : ScopeId)
    (enclosing : Option FunctionDecl) : ∀ s : Stmt, Regular symbols (stmt scope next enclosing s)
  | .block b => regular_block coherent scope next enclosing b
  | .expression _ e =>
    regular_append.mpr ⟨regular_expr coherent scope .none e, regular_quiet (by simp [rules])⟩
  | .var decl => regular_varDecl coherent scope decl
  | .function decl =>
    regular_append.mpr ⟨regular_function coherent scope next decl, regular_quiet (by simp [rules])⟩
  | .struct decl =>
    regular_append.mpr ⟨regular_append.mpr ⟨regular_quiet (by simp [rules]),
      regular_fields coherent scope next decl.name decl.fields⟩, regular_quiet (by simp [rules])⟩
  | .box decl => regular_box coherent scope next decl
  | .ifElse _ condition thenBody none =>
    regular_append.mpr ⟨regular_append.mpr ⟨regular_append.mpr ⟨regular_append.mpr
      ⟨regular_expr coherent scope .none condition, regular_rule Rule.condition_isRegular⟩,
      regular_openBody scope next thenBody⟩, regular_stmt coherent _ _ enclosing thenBody⟩,
      regular_rule Rule.branchesReturn_isRegular⟩
  | .ifElse _ condition thenBody (some elseBody) => by
    simp only [stmt, regular_append]
    exact ⟨⟨⟨⟨⟨regular_expr coherent scope .none condition,
      regular_rule Rule.condition_isRegular⟩, regular_openBody scope next thenBody,
      regular_stmt coherent _ _ enclosing thenBody⟩, regular_openBody scope _ elseBody⟩,
      regular_stmt coherent _ _ enclosing elseBody⟩, regular_rule Rule.branchesReturn_isRegular⟩
  | .while _ condition body =>
    regular_append.mpr ⟨regular_append.mpr ⟨regular_append.mpr ⟨regular_append.mpr
      ⟨regular_expr coherent scope .none condition, regular_rule Rule.condition_isRegular⟩,
      regular_openBody scope next body⟩, regular_stmt coherent _ _ enclosing body⟩,
      regular_quiet (by simp [rules])⟩
  | .return mark value => by
    have last : Regular symbols (.returns mark true :: match enclosing with
        | some enclosing => [.rule (.returned mark value enclosing)]
        | none => []) := by
      refine regular_cons.mpr ⟨by simp [rules], ?_⟩
      cases enclosing with
      | none => exact regular_nil
      | some decl => exact regular_rule Rule.returned_isRegular
    simp only [stmt, regular_append]
    refine ⟨?_, last⟩
    cases value with
    | none => exact regular_nil
    | some value => exact regular_expr coherent scope _ value

theorem regular_block (coherent : symbols.Coherent) (scope next : ScopeId)
    (enclosing : Option FunctionDecl) : ∀ b : Block,
    Regular symbols (block scope next enclosing b)
  | ⟨_, body⟩ =>
    regular_cons.mpr ⟨by simp [rules], regular_append.mpr ⟨regular_append.mpr
      ⟨regular_hoist next body, regular_stmts coherent _ _ enclosing body⟩,
      regular_rule Rule.blockReturns_isRegular⟩⟩

theorem regular_stmts (coherent : symbols.Coherent) (scope next : ScopeId)
    (enclosing : Option FunctionDecl) : ∀ body : List Stmt,
    Regular symbols (stmts scope next enclosing body)
  | [] => regular_nil
  | s :: rest =>
    regular_append.mpr ⟨regular_stmt coherent scope next enclosing s,
      regular_stmts coherent scope _ enclosing rest⟩

theorem regular_function (coherent : symbols.Coherent) (scope next : ScopeId) :
    ∀ decl : FunctionDecl, Regular symbols (function scope next decl)
  | ⟨mark, name, params, result, body⟩ => by
    have inside : ∀ after : List Step, Regular symbols after →
        Regular symbols (.openScope next .function scope :: (parameters next params ++
          .rule (.signature ⟨mark, name, params, result, body⟩) ::
          (block next (next + 1) (some ⟨mark, name, params, result, body⟩) body ++ after))) :=
      fun after regular => regular_cons.mpr ⟨by simp [rules], regular_append.mpr
        ⟨regular_parameters next params, regular_cons.mpr
          ⟨by simpa [rules] using Rule.signature_isRegular, regular_append.mpr
            ⟨regular_block coherent _ _ _ body, regular⟩⟩⟩⟩
    have types := regular_parameterTypes coherent scope params
    cases result with
    | none => exact regular_append.mpr ⟨regular_append.mpr ⟨types, regular_nil⟩,
        inside [] regular_nil⟩
    | some type =>
      exact regular_append.mpr
        ⟨regular_append.mpr ⟨types, regular_typeExpr coherent scope type⟩,
          inside _ (regular_rule Rule.returnsAlways_isRegular)⟩

theorem regular_box (coherent : symbols.Coherent) (scope next : ScopeId) : ∀ decl : BoxDecl,
    Regular symbols (box scope next decl)
  | ⟨_, name, members⟩ =>
    regular_append.mpr ⟨regular_append.mpr ⟨regular_append.mpr ⟨regular_quiet (by simp [rules]),
      regular_declareMembers next members⟩, regular_quiet (by simp [rules])⟩,
      regular_boxMembers coherent scope next (next + 1) name members⟩

theorem regular_boxMembers (coherent : symbols.Coherent) (scope inner next : ScopeId)
    (owner : String) : ∀ members : List Member,
    Regular symbols (boxMembers scope inner next owner members)
  | [] => regular_nil
  | .attr decl :: rest =>
    regular_append.mpr ⟨regular_append.mpr ⟨regular_typeExpr coherent scope decl.type,
      regular_annotated _ _⟩, regular_boxMembers coherent scope inner next owner rest⟩
  | .meth decl :: rest =>
    regular_append.mpr ⟨regular_function coherent inner next decl,
      regular_boxMembers coherent scope inner _ owner rest⟩

end

theorem regular_program (coherent : symbols.Coherent) (body : List Stmt) :
    Regular symbols (program body) :=
  regular_cons.mpr ⟨by simp [rules], regular_append.mpr
    ⟨regular_hoist 1 body, regular_stmts coherent 1 2 none body⟩⟩

end Walk

/-! ## What acceptance means -/

namespace Step

/-- What a step knows at once is an answer of the right sort. -/
theorem answers_of_mem_facts {symbols : SymbolTable} {step : Step}
    {fact : FactKey × FactValue} (known : fact ∈ step.facts) : fact.2.Answers symbols fact.1 := by
  unfold facts at known
  split at known
  · split at known
    · rw [List.mem_singleton] at known
      subst known
      exact .inl rfl
    · cases known
  · rw [List.mem_singleton] at known
    subst known
    rfl
  · cases known

end Step

namespace FactStore

/-- What is written under distinct questions is there afterwards. -/
theorem lastWrite?_of_nodup {writes : List (FactKey × FactValue)}
    (distinct : (writes.map (·.1)).Nodup) {write : FactKey × FactValue} (member : write ∈ writes) :
    lastWrite? write.1 writes = some write.2 := by
  induction writes with
  | nil => cases member
  | cons first rest ih =>
    obtain ⟨fresh, others⟩ := List.nodup_cons.mp distinct
    rcases List.mem_cons.mp member with rfl | member
    · have absent : lastWrite? write.1 rest = none := by
        cases written : lastWrite? write.1 rest with
        | none => rfl
        | some value =>
          exact absurd (List.mem_map.mpr ⟨_, mem_of_lastWrite? written, rfl⟩) fresh
      simp [lastWrite?, absent]
    · rw [lastWrite?, ih others member, Option.some_or]

end FactStore

/-- What is found out about a program: the steps of the walk over it, and its annotations. -/
structure Analysis where
  steps : List Step
  notes : Annotations

/-- The analysis of a program, if it has annotations. -/
def Program.analysis (program : Program) (notes : Annotations) : Analysis :=
  ⟨Walk.program program.body, notes⟩

/-- What is known of the analysis of an accepted program. -/
structure Analysis.Accepted (known : Analysis) : Prop where
  ordered : Step.Ordered 1 known.steps
  distinct : Step.Distinct known.steps
  reflects : known.notes.symbols.Reflects known.steps
  holds : ∀ step ∈ known.steps, ∀ rule ∈ step.rules, rule.Holds known.notes
  noted : ∀ step ∈ known.steps, ∀ fact ∈ step.facts,
    known.notes.facts.get? fact.1 = some (.known fact.2)

namespace Analysis

variable {known : Analysis}

/-- The rule of an expression holds. -/
theorem Accepted.rule (accepted : known.Accepted) {scope : ScopeId} {expectation : Expectation}
    {e : Expr} {rule : Rule}
    (step : .expr scope expectation e ∈ known.steps)
    (finding : e.finding scope expectation = .rule rule) : rule.Holds known.notes :=
  accepted.holds _ step rule (by simp only [Step.rules, finding, List.mem_singleton])

/-- The type of a literal is noted. -/
theorem Accepted.literal (accepted : known.Accepted) {scope : ScopeId} {expectation : Expectation}
    {e : Expr} {ty : Ty}
    (step : .expr scope expectation e ∈ known.steps)
    (finding : e.finding scope expectation = .known ty) : known.notes.typeOf? e.id = some ty := by
  apply Annotations.typeOf?_eq_some.mpr
  apply accepted.noted _ step (⟨e.id, .type⟩, .type ty)
  simp only [Step.facts, finding, List.mem_singleton]

end Analysis

/-- Before the solver starts, the rules of a walk wait, and what the walk knows is noted. -/
theorem Step.Distinct.pending {steps : List Step} {symbols : SymbolTable}
    (distinct : Step.Distinct steps)
    (regular : ∀ step ∈ steps, ∀ rule ∈ step.rules, rule.IsRegular symbols) :
    Rule.Pending symbols (steps.flatMap Step.rules)
      (FactStore.empty.setAll (steps.flatMap Step.facts)) where
  regular := by
    intro rule member
    obtain ⟨step, here, collected⟩ := List.mem_flatMap.mp member
    exact regular step here rule collected
  distinct := distinct.nodup_produces
  vacant := by
    intro key produced
    rw [FactStore.get?_setAll_of_notMem, FactStore.get?_empty]
    intro write written same
    exact distinct.known_not_produced produced (List.mem_map.mpr ⟨write, written, same⟩)
  sound := by
    intro key slot found
    rw [FactStore.get?_setAll] at found
    split at found
    · rename_i value written
      cases found
      obtain ⟨step, _, known⟩ := List.mem_flatMap.mp (FactStore.mem_of_lastWrite? written)
      exact ⟨value, rfl, Step.answers_of_mem_facts known⟩
    · rw [FactStore.get?_empty] at found
      cases found

/-- What the walk knows beforehand is one answer to each question. -/
theorem Step.Distinct.nodup_facts {steps : List Step} (distinct : Step.Distinct steps) :
    ((steps.flatMap Step.facts).map (·.1)).Nodup := by
  rw [List.map_flatMap]
  exact distinct.nodup_answers.sublist
    (List.Sublist.flatMap_right steps fun step _ => List.sublist_append_left _ _)

theorem accepted_of_analyze {program : Program} {notes : Annotations}
    (nodup : (Stmt.idsOfAll program.body).Nodup) (analyzed : analyze program = .ok notes) :
    (Program.analysis program notes).Accepted := by
  have distinct := Walk.distinct_program nodup
  have ordered := Walk.ordered_program program.body
  simp only [analyze] at analyzed
  split at analyzed
  · rename_i clean
    cases analyzed
    rw [List.isEmpty_iff, List.append_eq_nil_iff] at clean
    obtain ⟨named, solved⟩ := clean
    have reflects := reflects_survey (Array.toList_eq_nil_iff.mp named)
    have regular := Walk.regular_program (reflects.coherent ordered) program.body
    obtain ⟨kept, settled⟩ := Findings.solve_sound (distinct.pending regular) solved
    refine ⟨ordered, distinct, reflects, ?_, ?_⟩
    · intro step member rule collected
      exact settled rule (List.mem_flatMap.mpr ⟨step, member, collected⟩)
    · intro step member fact noted
      have written := List.mem_flatMap.mpr ⟨step, member, noted⟩
      have last := FactStore.lastWrite?_of_nodup distinct.nodup_facts written
      exact kept _ _ (FactStore.has_setAll _ _ _ _ last)
  · cases analyzed

/-- A source is checked without errors if the program that it spells is. -/
theorem analyzed_of_checkSource {file : String} {source : List Char} {program : Program}
    {notes : Annotations} (checked : checkSource file source = .ok (program, notes)) :
    readProgram file source = .ok program ∧ analyze program = .ok notes := by
  unfold checkSource at checked
  split at checked
  · cases checked
  · cases checked
  · rename_i p read
    split at checked
    · cases checked
    · rename_i found analyzed
      cases checked
      exact ⟨read, analyzed⟩

/-- A source that is checked without errors is accepted. -/
theorem accepted_of_checkSource {file : String} {source : List Char} {program : Program}
    {notes : Annotations} (checked : checkSource file source = .ok (program, notes)) :
    (Program.analysis program notes).Accepted := by
  obtain ⟨read, analyzed⟩ := analyzed_of_checkSource checked
  obtain ⟨tokens, _, parsed⟩ := parsed_of_readProgram read
  exact accepted_of_analyze (nodup_ids_of_parse parsed) analyzed

end BoxScript
