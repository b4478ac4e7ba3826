import BoxScript.Proofs.Typing.ExpressionRules

/-!
# The rules of statements and the type system

The rules that the walk over statements collects hold, and what the walk knows there is noted, if
and only if the statements are well typed (`Walk.allHold_stmt`). The walk counts the scopes that it
opens, and the type system numbers them; the numbers are the same.
-/

set_option autoImplicit false

namespace BoxScript

variable {notes : Annotations} {scope next : ScopeId}

/-! ## Return flags that are noted -/

theorem StmtTyped.returns {later : ScopeId} {around : Around} {s : Stmt}
    (typed : StmtTyped notes scope next around s later) :
    notes.returns? s.id = some s.alwaysReturns := by
  cases typed with
  | intro _ noted => exact noted

theorem StmtTyped.rule {later : ScopeId} {around : Around} {s : Stmt}
    (typed : StmtTyped notes scope next around s later) :
    StmtRule notes scope next around s later := by
  cases typed with
  | intro rule _ => exact rule

theorem BranchTyped.returns {later : ScopeId} {around : Around} {s : Stmt}
    (typed : BranchTyped notes scope next around s later) :
    notes.returns? s.id = some s.alwaysReturns := by
  cases typed with
  | block typedBlock => exact typedBlock.returns
  | alone _ typedStmt => exact typedStmt.returns

theorem StmtsTyped.returns {later : ScopeId} {around : Around} {body : List Stmt}
    (typed : StmtsTyped notes scope next around body later) :
    ∀ s ∈ body, notes.returns? s.id = some s.alwaysReturns := by
  induction body generalizing next with
  | nil => simp
  | cons first rest ih =>
    cases typed with
    | cons typedFirst typedRest =>
      exact List.forall_mem_cons.mpr ⟨typedFirst.returns, ih typedRest⟩

theorem Stmt.lastReturns_of_getLast? {body : List Stmt} {s : Stmt}
    (last : body.getLast? = some s) : Stmt.lastReturns body = s.alwaysReturns := by
  induction body with
  | nil => cases last
  | cons first rest ih =>
    cases rest with
    | nil =>
      obtain rfl := Option.some.inj last
      rw [Stmt.lastReturns, List.getLast_singleton]
    | cons second rest =>
      rw [Stmt.lastReturns]
      exact ih (by simpa using last)

namespace Rule

/-- The rule for the return flag of a block holds if the flag is that of the last statement. -/
theorem blockReturns_holds_iff_noted {mark : Mark} {body : List Stmt}
    (each : ∀ s ∈ body, notes.returns? s.id = some s.alwaysReturns) :
    (blockReturns mark (body.getLast?.map Stmt.id)).Holds notes ↔
      notes.returns? mark.id = some (Stmt.lastReturns body) := by
  rw [blockReturns_holds_iff]
  cases last : body.getLast? with
  | none =>
    obtain rfl := List.getLast?_eq_none_iff.mp last
    rfl
  | some s =>
    have noted := each s (List.mem_of_getLast? last)
    simp [noted, Stmt.lastReturns_of_getLast? last]

/-- Without another branch an `if` does not always return. -/
theorem branchReturns_holds_iff_noted {mark : Mark} {thenBody : Stmt}
    (first : notes.returns? thenBody.id = some thenBody.alwaysReturns) :
    (branchesReturn mark thenBody.id none).Holds notes ↔ notes.returns? mark.id = some false := by
  rw [branchesReturn_holds_iff, first]
  cases thenBody.alwaysReturns <;> simp

/-- The rule for the return flag of an `if` holds if the flag tells whether both branches return. -/
theorem branchesReturn_holds_iff_noted {mark : Mark} {thenBody elseBody : Stmt}
    (first : notes.returns? thenBody.id = some thenBody.alwaysReturns)
    (second : notes.returns? elseBody.id = some elseBody.alwaysReturns) :
    (branchesReturn mark thenBody.id (some elseBody.id)).Holds notes ↔
      notes.returns? mark.id = some (thenBody.alwaysReturns && elseBody.alwaysReturns) := by
  rw [branchesReturn_holds_iff, first]
  cases thenBody.alwaysReturns with
  | false => simp
  | true => cases value : elseBody.alwaysReturns <;> simp [second, value]

end Rule

/-! ## Functions around statements -/

/-- What is around a statement in the walk and in the type system. -/
inductive Around.Matches (notes : Annotations) : Around → Option FunctionDecl → Prop
  | program : Matches notes .program none
  | plain {decl : FunctionDecl} : decl.result = none → Matches notes (.function none) (some decl)
  | written {decl : FunctionDecl} {type : TypeExpr} {ty : Ty} : decl.result = some type →
      notes.typeOf? type.id = some ty → Matches notes (.function (some ty)) (some decl)

namespace Around.Matches

variable {around : Around} {enclosing : Option FunctionDecl}

theorem means (matched : around.Matches notes enclosing) :
    (Walk.returnExpectation enclosing).Means notes around.expected := by
  cases matched with
  | program => rfl
  | plain result =>
    simp only [Walk.returnExpectation, Option.bind_some, result]
    rfl
  | written result noted =>
    simp only [Walk.returnExpectation, Option.bind_some, result]
    exact ⟨_, noted, rfl⟩

theorem result? (matched : around.Matches notes enclosing) :
    enclosing.bind (Rule.resultType? notes) = around.result? := by
  cases matched with
  | program => rfl
  | plain result => simp [Rule.resultType?, result, Around.result?]
  | written result noted => simp [Rule.resultType?, result, noted, Around.result?]

/-- The rule of a `return` holds if what it gives fits. -/
theorem returned (mark : Mark) (value : Option Expr) : around.Matches notes enclosing →
    (Step.AllHold notes (match enclosing with
      | some enclosing => [.rule (.returned mark value enclosing)]
      | none => []) ↔
    ∀ result ∈ around.result?, match value with
      | some value => ∃ actual,
        notes.typeOf? value.id = some actual ∧ actual.isAssignableTo result = true
      | none => result = .void) := by
  intro matched
  have result := matched.result?
  cases enclosing with
  | none =>
    rw [← result]
    simp
  | some decl =>
    obtain ⟨written, is⟩ : ∃ written, around = .function written := by
      cases matched <;> exact ⟨_, rfl⟩
    subst is
    rw [Option.bind_some] at result
    simp only [Step.allHold_cons, Step.allHold_nil, and_true, Step.holds_rule,
      Rule.returned_holds_iff, result]
    cases value <;> simp [Around.result?, Ty.same_iff_eq]

end Around.Matches

theorem ResultWritten.matches (decl : FunctionDecl) {written : Option Ty}
    (isWritten : ResultWritten notes scope decl.result written) :
    Around.Matches notes (.function written) (some decl) := by
  generalize is : decl.result = result at isWritten
  cases isWritten with
  | absent => exact .plain is
  | present denotes => exact .written is denotes.noted

namespace Walk

open Step

/-! ## Declarations -/

@[simp]
theorem allHold_hoist {body : List Stmt} : AllHold notes (hoist scope body) := by
  induction body with
  | nil => simp [hoist]
  | cons s rest ih => cases s <;> simp [hoist, ih]

@[simp]
theorem allHold_declareMembers {members : List Member} :
    AllHold notes (declareMembers scope members) := by
  induction members with
  | nil => simp [declareMembers]
  | cons member rest ih => cases member <;> simp [declareMembers, ih]

/-- The type of an annotation is noted as that of what it is written for. -/
theorem declares_iff {name : TypedName} {what : String} :
    AllHold notes (typeExpr scope name.type) ∧ (annotated name what).Holds notes ↔
      ∃ ty, name.Declares notes scope ty := by
  rw [allHold_typeExpr, annotated, holds_rule, Rule.annotated_holds_iff]
  constructor
  · rintro ⟨⟨ty, written⟩, other, noted, own⟩
    obtain rfl := written.eq noted
    exact ⟨ty, written, own⟩
  · rintro ⟨ty, written, own⟩
    exact ⟨⟨ty, written⟩, ty, written.noted, own⟩

theorem allHold_fields {inner : ScopeId} {owner : String} {names : List TypedName} :
    AllHold notes (fields scope inner owner names) ↔
      ∀ name ∈ names, ∃ ty, name.Declares notes scope ty := by
  induction names with
  | nil => simp [fields]
  | cons name rest ih => simp [fields, ih, ← and_assoc, declares_iff]

theorem allHold_parameters {inner : ScopeId} {names : List TypedName} :
    AllHold notes (parameterTypes scope names) ∧ AllHold notes (parameters inner names) ↔
      ∀ name ∈ names, ∃ ty, name.Declares notes scope ty := by
  induction names with
  | nil => simp [parameterTypes, parameters]
  | cons name rest ih =>
    simp only [parameterTypes, parameters, allHold_append, allHold_cons, allHold_nil, holds_declare,
      true_and, and_true, List.forall_mem_cons, and_and_and_comm, declares_iff, ih]

/-- The parameters of a function have the types of its signature. -/
theorem forall₂_declares_iff {names : List TypedName} {types : List Ty} :
    (∀ name ∈ names, ∃ ty, name.Declares notes scope ty) ∧
      List.Forall₂ (fun name ty => notes.typeOf? name.type.id = some ty) names types ↔
      List.Forall₂ (TypedName.Declares notes scope) names types := by
  constructor
  · rintro ⟨each, noted⟩
    induction noted with
    | nil => exact .nil
    | cons here _ ih =>
      obtain ⟨⟨ty, declares⟩, others⟩ := List.forall_mem_cons.mp each
      obtain rfl := declares.written.eq here
      exact .cons declares (ih others)
  · intro declares
    induction declares with
    | nil => exact ⟨by simp, .nil⟩
    | cons here _ ih =>
      exact ⟨List.forall_mem_cons.mpr ⟨⟨_, here⟩, ih.1⟩, .cons here.written.noted ih.2⟩

theorem allHold_varDecl {decl : VariableDecl} :
    AllHold notes (varDecl scope decl) ↔
      VariableTyped notes scope decl ∧ notes.returns? decl.mark.id = some false := by
  obtain ⟨mark, name, form⟩ := decl
  cases form with
  | inferred value =>
    simp only [varDecl, allHold_append, allHold_cons, allHold_nil, and_true, holds_declare,
      true_and, holds_returns, holds_rule, allHold_expr value .none none rfl,
      Rule.inferred_holds_iff]
    constructor
    · rintro ⟨⟨⟨ty, typed⟩, returns⟩, other, noted, noNull, noVoid, own⟩
      obtain rfl := typed.eq noted
      exact ⟨.inferred typed noNull noVoid own, returns⟩
    · rintro ⟨_ | _ | ⟨typed, noNull, noVoid, own⟩, returns⟩
      exact ⟨⟨⟨_, typed⟩, returns⟩, _, typed.noted, noNull, noVoid, own⟩
  | typed type value =>
    have declared : AllHold notes (typeExpr scope type) ∧
        (annotated ⟨mark, name, type⟩ (varDecl.what ⟨mark, name, .typed type value⟩)).Holds notes ↔
        ∃ ty, TypedName.Declares notes scope ⟨mark, name, type⟩ ty :=
      @declares_iff notes scope ⟨mark, name, type⟩ _
    cases value with
    | none =>
      simp only [varDecl, allHold_append, allHold_cons, allHold_nil, and_true, holds_declare,
        true_and, holds_returns]
      rw [and_right_comm, declared]
      constructor
      · rintro ⟨⟨ty, written, own⟩, returns⟩
        exact ⟨.plain written own, returns⟩
      · rintro ⟨⟨written, own⟩, returns⟩
        exact ⟨⟨_, written, own⟩, returns⟩
    | some value =>
      simp only [varDecl, allHold_append, allHold_cons, allHold_nil, and_true, holds_declare,
        true_and, holds_returns, holds_rule, Rule.initializer_holds_iff]
      have valueTyped : ∀ {ty : Ty}, notes.typeOf? type.id = some ty →
          (AllHold notes (expr scope (.type type.id) value) ↔
            ∃ valueType, HasType notes scope (some ty) value valueType) :=
        fun noted => allHold_expr value (.type type.id) _ ⟨_, noted, rfl⟩
      constructor
      · rintro ⟨⟨⟨types, holds⟩, returns⟩, noting, expected, actual, noted, valueNoted, fits⟩
        obtain ⟨ty, written, own⟩ := declared.mp ⟨types, noting⟩
        obtain rfl := written.eq noted
        obtain ⟨_, typed⟩ := (valueTyped noted).mp holds
        obtain rfl := typed.eq valueNoted
        exact ⟨.initialized written typed fits own, returns⟩
      · rintro ⟨_ | ⟨written, typed, fits, own⟩, returns⟩
        obtain ⟨types, noting⟩ := declared.mpr ⟨_, written, own⟩
        exact ⟨⟨⟨types, (valueTyped written.noted).mpr ⟨_, typed⟩⟩, returns⟩, noting, _, _,
          written.noted, typed.noted, fits⟩

/-! ## Statements -/

theorem allHold_test {statement : Conditional} {condition : Expr} :
    AllHold notes (test scope statement condition) ↔ HasType notes scope none condition .bool := by
  simp only [test, allHold_append, allHold_cons, allHold_nil, and_true, holds_rule,
    allHold_expr condition .none none rfl, Rule.condition_holds_iff]
  constructor
  · rintro ⟨⟨ty, typed⟩, other, noted, isBool⟩
    obtain rfl := typed.eq noted
    exact (Ty.same_iff_eq (by simp)).mp isBool ▸ typed
  · intro typed
    exact ⟨⟨_, typed⟩, _, typed.noted, rfl⟩

/-- Wherever a statement stands, its steps hold and open the scopes up to `later` if and only if
it is well typed there. -/
def Decided (notes : Annotations) (enclosing : Option FunctionDecl) (around : Around) (s : Stmt) :
    Prop :=
  ∀ scope next later : ScopeId, AllHold notes (stmt scope next enclosing s) ∧
    later = next + opened (stmt scope next enclosing s) ↔ StmtTyped notes scope next around s later

/-- The steps for a branch hold if it is well typed, given that this is so for its statement. -/
theorem allHold_branch_of {enclosing : Option FunctionDecl} {around : Around} {s : Stmt}
    (each : Decided notes enclosing around s) {later : ScopeId} :
    AllHold notes (branch scope next enclosing s) ∧
      later = next + opened (branch scope next enclosing s) ↔
        BranchTyped notes scope next around s later := by
  by_cases isBlock : ∃ b, s = .block b
  · obtain ⟨b, rfl⟩ := isBlock
    refine (each scope next later).trans ?_
    constructor
    · exact .block
    · rintro (typed | ⟨noBlock, _⟩)
      · exact typed
      · exact absurd rfl (noBlock b)
  · have noBlock : ∀ b, s ≠ .block b := not_exists.mp isBlock
    rw [branch_alone enclosing noBlock]
    simp only [stmts, List.append_nil, allHold_cons, holds_openScope, true_and, allHold_append,
      allHold_hoist, opened_openScope_cons, opened_append, opened_hoist, Nat.zero_add,
      ← Nat.add_assoc, each _ _ _]
    constructor
    · exact .alone noBlock
    · rintro (_ | ⟨_, typed⟩)
      · exact absurd rfl (noBlock _)
      · exact typed

/-- The steps for a written result type hold if it denotes a type. -/
theorem allHold_result {result : Option TypeExpr} :
    AllHold notes (match result with
      | some type => typeExpr scope type
      | none => []) ↔ ∃ written, ResultWritten notes scope result written := by
  cases result with
  | none => exact ⟨fun _ => ⟨none, .absent⟩, fun _ => allHold_nil⟩
  | some type =>
    refine allHold_typeExpr.trans ?_
    constructor
    · rintro ⟨ty, denotes⟩
      exact ⟨some ty, .present denotes⟩
    · rintro ⟨_, ⟨⟩ | denotes⟩
      exact ⟨_, denotes⟩

/-- A function that has to give a value always returns. -/
theorem allHold_returnsAlways (decl : FunctionDecl) {written : Option Ty}
    (noted : notes.returns? decl.body.mark.id = some decl.body.alwaysReturns) :
    ResultWritten notes scope decl.result written →
    (AllHold notes (match decl.result with
      | some type => [.rule (.returnsAlways decl type.id)]
      | none => []) ↔ written.getD .void = .void ∨ decl.body.alwaysReturns = true) := by
  intro isWritten
  generalize decl.result = result at isWritten
  cases isWritten with
  | absent => simp
  | present denotes => simp [Rule.returnsAlways_holds_iff, denotes.noted, noted, Ty.same_iff_eq]

section Forms

variable {enclosing : Option FunctionDecl} {around : Around} {mark : Mark}

theorem decided_expression {e : Expr} :
    Decided notes enclosing around (.expression mark e) := by
  intro scope next later
  simp only [stmt, allHold_append, allHold_cons, allHold_nil, and_true, holds_returns,
    allHold_expr e .none none rfl, opened_append, (plain_expr scope .none e).opened,
    opened_returns_cons, opened_nil, Nat.add_zero]
  constructor
  · rintro ⟨⟨⟨ty, typed⟩, noted⟩, rfl⟩
    exact .intro (.expression typed) noted
  · intro typed
    cases typed.rule with
    | expression typedExpr => exact ⟨⟨⟨_, typedExpr⟩, typed.returns⟩, rfl⟩

theorem decided_var {decl : VariableDecl} : Decided notes enclosing around (.var decl) := by
  intro scope next later
  simp only [stmt, allHold_varDecl, opened_varDecl, Nat.add_zero]
  constructor
  · rintro ⟨⟨typed, noted⟩, rfl⟩
    exact .intro (.var typed) noted
  · intro typed
    cases typed.rule with
    | var typedVar => exact ⟨⟨typedVar, typed.returns⟩, rfl⟩

theorem decided_struct {decl : StructDecl} : Decided notes enclosing around (.struct decl) := by
  intro scope next later
  simp only [stmt, struct, allHold_append, allHold_cons, allHold_nil, and_true, holds_returns,
    holds_openScope, holds_setMembers, allHold_fields, opened_append, opened_returns_cons,
    opened_openScope_cons, opened_fields, opened_setMembers_cons, opened_nil, Nat.add_zero]
  constructor
  · rintro ⟨⟨noted, fields⟩, rfl⟩
    exact .intro (.struct fields) noted
  · intro typed
    cases typed.rule with
    | struct fields => exact ⟨⟨typed.returns, fields⟩, rfl⟩

theorem decided_returnNothing (matched : around.Matches notes enclosing) :
    Decided notes enclosing around (.return mark none) := by
  intro scope next later
  have opens : opened (stmt scope next enclosing (.return mark none)) = 0 := by
    cases enclosing <;> simp [stmt]
  rw [opens]
  simp only [stmt, List.nil_append, allHold_cons, holds_returns, Nat.add_zero]
  have rule := Around.Matches.returned mark none matched
  constructor
  · rintro ⟨⟨noted, holds⟩, rfl⟩
    exact .intro (.returnNothing (rule.mp holds)) noted
  · intro typed
    cases typed.rule with
    | returnNothing nothing => exact ⟨⟨typed.returns, rule.mpr nothing⟩, rfl⟩

theorem decided_return {value : Expr} (matched : around.Matches notes enclosing) :
    Decided notes enclosing around (.return mark (some value)) := by
  intro scope next later
  have opens : opened (stmt scope next enclosing (.return mark (some value))) = 0 := by
    cases enclosing <;> simp [stmt, (plain_expr scope _ value).opened]
  rw [opens]
  simp only [stmt, allHold_append, allHold_cons, holds_returns, Nat.add_zero,
    allHold_expr value _ _ matched.means]
  have rule := Around.Matches.returned mark (some value) matched
  constructor
  · rintro ⟨⟨⟨ty, typed⟩, noted, holds⟩, rfl⟩
    refine .intro (.return typed ?_) noted
    intro result is
    obtain ⟨actual, valueNoted, fits⟩ := rule.mp holds result is
    exact typed.eq valueNoted ▸ fits
  · intro typed
    cases typed.rule with
    | «return» typedValue fits =>
      have holds := rule.mpr fun result is => ⟨_, typedValue.noted, fits result is⟩
      exact ⟨⟨⟨_, typedValue⟩, typed.returns, holds⟩, rfl⟩

theorem decided_ifThen {condition : Expr} {thenBody : Stmt}
    (first : Decided notes enclosing around thenBody) :
    Decided notes enclosing around (.ifElse mark condition thenBody none) := by
  intro scope next later
  rw [stmt_ifThen]
  simp only [allHold_append, allHold_test, allHold_cons, allHold_nil, and_true, holds_rule,
    opened_append, (plain_test scope .if condition).opened, opened_rule_cons, opened_nil,
    Nat.add_zero, Nat.zero_add]
  constructor
  · rintro ⟨⟨⟨tested, holds⟩, rule⟩, is⟩
    have typedThen := (allHold_branch_of first).mp ⟨holds, is⟩
    exact .intro (.ifThen tested typedThen)
      ((Rule.branchReturns_holds_iff_noted typedThen.returns).mp rule)
  · intro typed
    cases typed.rule with
    | ifThen tested typedThen =>
      obtain ⟨holds, is⟩ := (allHold_branch_of first).mpr typedThen
      exact ⟨⟨⟨tested, holds⟩,
        (Rule.branchReturns_holds_iff_noted typedThen.returns).mpr typed.returns⟩, is⟩

theorem decided_ifElse {condition : Expr} {thenBody elseBody : Stmt}
    (first : Decided notes enclosing around thenBody)
    (second : Decided notes enclosing around elseBody) :
    Decided notes enclosing around (.ifElse mark condition thenBody (some elseBody)) := by
  intro scope next later
  rw [stmt_ifElse]
  simp only [allHold_append, allHold_test, allHold_cons, allHold_nil, and_true, holds_rule,
    opened_append, (plain_test scope .if condition).opened, opened_rule_cons, opened_nil,
    Nat.add_zero, Nat.zero_add, ← Nat.add_assoc]
  constructor
  · rintro ⟨⟨⟨tested, holds, holdsToo⟩, rule⟩, is⟩
    have typedThen := (allHold_branch_of first).mp ⟨holds, rfl⟩
    have typedElse := (allHold_branch_of second).mp ⟨holdsToo, is⟩
    exact .intro (.ifElse tested typedThen typedElse)
      ((Rule.branchesReturn_holds_iff_noted typedThen.returns typedElse.returns).mp rule)
  · intro typed
    cases typed.rule with
    | ifElse tested typedThen typedElse =>
      obtain ⟨holds, rfl⟩ := (allHold_branch_of first).mpr typedThen
      obtain ⟨holdsToo, is⟩ := (allHold_branch_of second).mpr typedElse
      exact ⟨⟨⟨tested, holds, holdsToo⟩, (Rule.branchesReturn_holds_iff_noted typedThen.returns
        typedElse.returns).mpr typed.returns⟩, is⟩

theorem decided_while {condition : Expr} {body : Stmt}
    (inside : Decided notes enclosing around body) :
    Decided notes enclosing around (.while mark condition body) := by
  intro scope next later
  rw [stmt_while]
  simp only [allHold_append, allHold_test, allHold_cons, allHold_nil, and_true, holds_returns,
    opened_append, (plain_test scope .while condition).opened, opened_returns_cons, opened_nil,
    Nat.add_zero, Nat.zero_add]
  constructor
  · rintro ⟨⟨⟨tested, holds⟩, noted⟩, is⟩
    exact .intro (.while tested ((allHold_branch_of inside).mp ⟨holds, is⟩)) noted
  · intro typed
    cases typed.rule with
    | «while» tested typedBody =>
      obtain ⟨holds, is⟩ := (allHold_branch_of inside).mpr typedBody
      exact ⟨⟨⟨tested, holds⟩, typed.returns⟩, is⟩

theorem decided_function {decl : FunctionDecl}
    (inside : ∀ scope next later : ScopeId, AllHold notes (function scope next decl) ∧
      later = next + opened (function scope next decl) ↔
        FunctionTyped notes scope next decl later) :
    Decided notes enclosing around (.function decl) := by
  intro scope next later
  simp only [stmt, allHold_append, allHold_cons, allHold_nil, and_true, holds_returns,
    opened_append, opened_returns_cons, opened_nil, Nat.add_zero]
  constructor
  · rintro ⟨⟨holds, noted⟩, is⟩
    exact .intro (.function ((inside _ _ _).mp ⟨holds, is⟩)) noted
  · intro typed
    cases typed.rule with
    | function typedFunction =>
      obtain ⟨holds, is⟩ := (inside _ _ _).mpr typedFunction
      exact ⟨⟨holds, typed.returns⟩, is⟩

theorem decided_box {name : String} {members : List Member}
    (inside : ∀ scope next later : ScopeId,
      AllHold notes (boxMembers scope next (next + 1) name members) ∧
        later = next + 1 + opened (boxMembers scope next (next + 1) name members) ↔
        MembersTyped notes scope next (next + 1) members later) :
    Decided notes enclosing around (.box ⟨mark, name, members⟩) := by
  intro scope next later
  simp only [stmt, box, allHold_append, allHold_cons, allHold_nil, and_true, holds_returns,
    holds_openScope, holds_setMembers, allHold_declareMembers, opened_append, opened_returns_cons,
    opened_openScope_cons, opened_declareMembers, opened_setMembers_cons, opened_nil, Nat.add_zero,
    ← Nat.add_assoc]
  constructor
  · rintro ⟨⟨noted, holds⟩, is⟩
    exact .intro (.box ((inside _ _ _).mp ⟨holds, is⟩)) noted
  · intro typed
    cases typed.rule with
    | box typedMembers =>
      obtain ⟨holds, is⟩ := (inside _ _ _).mpr typedMembers
      exact ⟨⟨typed.returns, holds⟩, is⟩

end Forms

mutual

/-- The steps for a statement hold if it is well typed. -/
theorem allHold_stmt : ∀ (s : Stmt) (enclosing : Option FunctionDecl) (around : Around),
    around.Matches notes enclosing → Decided notes enclosing around s
  | .block b => fun enclosing around matched scope next later =>
    allHold_block b scope next later enclosing around matched
  | .expression _ _ => fun _ _ _ => decided_expression
  | .var _ => fun _ _ _ => decided_var
  | .function decl => fun _ _ _ => decided_function (allHold_function decl)
  | .struct _ => fun _ _ _ => decided_struct
  | .box ⟨_, name, members⟩ => fun _ _ _ => decided_box fun scope next later =>
    allHold_boxMembers members scope next (next + 1) later name
  | .ifElse _ _ thenBody none => fun enclosing around matched =>
    decided_ifThen (allHold_stmt thenBody enclosing around matched)
  | .ifElse _ _ thenBody (some elseBody) => fun enclosing around matched =>
    decided_ifElse (allHold_stmt thenBody enclosing around matched)
      (allHold_stmt elseBody enclosing around matched)
  | .while _ _ body => fun enclosing around matched =>
    decided_while (allHold_stmt body enclosing around matched)
  | .return _ none => fun _ _ matched => decided_returnNothing matched
  | .return _ (some _) => fun _ _ matched => decided_return matched

theorem allHold_block : ∀ (b : Block) (scope next later : ScopeId)
    (enclosing : Option FunctionDecl) (around : Around), around.Matches notes enclosing →
    (AllHold notes (block scope next enclosing b) ∧
      later = next + opened (block scope next enclosing b) ↔
        StmtTyped notes scope next around (.block b) later)
  | ⟨mark, body⟩ => by
    intro scope next later enclosing around matched
    have inside := allHold_stmts body next (next + 1) later enclosing around matched
    simp only [block, allHold_cons, holds_openScope, true_and, allHold_append, allHold_hoist,
      allHold_nil, and_true, holds_rule, opened_openScope_cons, opened_append, opened_hoist,
      opened_rule_cons, opened_nil, Nat.zero_add, Nat.add_zero, ← Nat.add_assoc]
    constructor
    · rintro ⟨⟨holds, rule⟩, is⟩
      have typed := inside.mp ⟨holds, is⟩
      exact .intro (.block typed) ((Rule.blockReturns_holds_iff_noted typed.returns).mp rule)
    · intro typed
      cases typed.rule with
      | block typedBody =>
        obtain ⟨holds, is⟩ := inside.mpr typedBody
        exact ⟨⟨holds, (Rule.blockReturns_holds_iff_noted typedBody.returns).mpr typed.returns⟩, is⟩

theorem allHold_stmts : ∀ (body : List Stmt) (scope next later : ScopeId)
    (enclosing : Option FunctionDecl) (around : Around), around.Matches notes enclosing →
    (AllHold notes (stmts scope next enclosing body) ∧
      later = next + opened (stmts scope next enclosing body) ↔
        StmtsTyped notes scope next around body later)
  | [] => by
    intro scope next later enclosing around matched
    simp only [stmts, allHold_nil, true_and, opened_nil, Nat.add_zero]
    constructor
    · rintro rfl
      exact .nil
    · rintro ⟨⟩
      rfl
  | s :: rest => by
    intro scope next later enclosing around matched
    have first := fun middle => allHold_stmt s enclosing around matched scope next middle
    have others := fun middle => allHold_stmts rest scope middle later enclosing around matched
    simp only [stmts, allHold_append, opened_append, ← Nat.add_assoc]
    constructor
    · rintro ⟨⟨here, after⟩, is⟩
      exact .cons ((first _).mp ⟨here, rfl⟩) ((others _).mp ⟨after, is⟩)
    · rintro (_ | ⟨typed, typedRest⟩)
      obtain ⟨here, rfl⟩ := (first _).mpr typed
      obtain ⟨after, is⟩ := (others _).mpr typedRest
      exact ⟨⟨here, after⟩, is⟩

theorem allHold_function : ∀ (decl : FunctionDecl) (scope next later : ScopeId),
    (AllHold notes (function scope next decl) ∧ later = next + opened (function scope next decl) ↔
      FunctionTyped notes scope next decl later)
  | ⟨mark, name, names, result, body⟩ => by
    intro scope next later
    have inside := fun written => allHold_block body next (next + 1) later
      (some ⟨mark, name, names, result, body⟩) (.function written)
    have opens : opened (function scope next ⟨mark, name, names, result, body⟩) =
        1 + opened (block next (next + 1) (some ⟨mark, name, names, result, body⟩) body) := by
      cases result <;> simp [function, (plain_parameterTypes scope names).opened,
        (plain_typeExpr scope _).opened]
    rw [opens]
    simp only [function, allHold_append, allHold_cons, holds_openScope, true_and, holds_rule,
      ← Nat.add_assoc]
    constructor
    · rintro ⟨⟨⟨types, resultHolds⟩, declared, signature, holds, returnsHold⟩, is⟩
      obtain ⟨written, isWritten⟩ := allHold_result.mp resultHolds
      have matched := ResultWritten.matches ⟨mark, name, names, result, body⟩ isWritten
      have typed := (inside written matched).mp ⟨holds, is⟩
      obtain ⟨params, other, noted, resultIs, own⟩ := Rule.signature_holds_iff.mp signature
      have declares := forall₂_declares_iff.mp ⟨allHold_parameters.mp ⟨types, declared⟩, noted⟩
      have resultIsToo : Rule.resultType? notes ⟨mark, name, names, result, body⟩ =
          some (written.getD .void) := matched.result?
      obtain rfl := Option.some.inj (resultIs.symm.trans resultIsToo)
      have always := allHold_returnsAlways ⟨mark, name, names, result, body⟩ typed.returns isWritten
      exact .intro declares isWritten own typed (always.mp returnsHold)
    · rintro ⟨declares, isWritten, own, typed, returns⟩
      have matched := ResultWritten.matches ⟨mark, name, names, result, body⟩ isWritten
      obtain ⟨holds, is⟩ := (inside _ matched).mpr typed
      obtain ⟨each, noted⟩ := forall₂_declares_iff.mpr declares
      obtain ⟨types, declared⟩ := allHold_parameters.mpr each
      have always := allHold_returnsAlways ⟨mark, name, names, result, body⟩ typed.returns isWritten
      exact ⟨⟨⟨types, allHold_result.mpr ⟨_, isWritten⟩⟩, declared,
        Rule.signature_holds_iff.mpr ⟨_, _, noted, matched.result?, own⟩, holds,
        always.mpr returns⟩, is⟩

theorem allHold_boxMembers : ∀ (members : List Member) (scope inner next later : ScopeId)
    (owner : String), (AllHold notes (boxMembers scope inner next owner members) ∧
      later = next + opened (boxMembers scope inner next owner members) ↔
        MembersTyped notes scope inner next members later)
  | [] => by
    intro scope inner next later owner
    simp only [boxMembers, allHold_nil, true_and, opened_nil, Nat.add_zero]
    constructor
    · rintro rfl
      exact .nil
    · rintro ⟨⟩
      rfl
  | .attr decl :: rest => by
    intro scope inner next later owner
    have others := allHold_boxMembers rest scope inner next later owner
    have opens : opened (boxMembers scope inner next owner (.attr decl :: rest)) =
        opened (boxMembers scope inner next owner rest) := by
      simp [boxMembers, annotated, (plain_typeExpr scope decl.type).opened]
    rw [opens]
    simp only [boxMembers, allHold_append, allHold_cons, allHold_nil, and_true, declares_iff]
    constructor
    · rintro ⟨⟨⟨ty, declares⟩, holds⟩, is⟩
      exact .attr declares (others.mp ⟨holds, is⟩)
    · rintro (_ | ⟨declares, typedRest⟩)
      obtain ⟨holds, is⟩ := others.mpr typedRest
      exact ⟨⟨⟨_, declares⟩, holds⟩, is⟩
  | .meth decl :: rest => by
    intro scope inner next later owner
    have first := fun middle => allHold_function decl inner next middle
    have others := fun middle => allHold_boxMembers rest scope inner middle later owner
    simp only [boxMembers, allHold_append, opened_append, ← Nat.add_assoc]
    constructor
    · rintro ⟨⟨here, after⟩, is⟩
      exact .meth ((first _).mp ⟨here, rfl⟩) ((others _).mp ⟨after, is⟩)
    · rintro (_ | _ | ⟨typed, typedRest⟩)
      obtain ⟨here, rfl⟩ := (first _).mpr typed
      obtain ⟨after, is⟩ := (others _).mpr typedRest
      exact ⟨⟨here, after⟩, is⟩

end

end Walk

end BoxScript
