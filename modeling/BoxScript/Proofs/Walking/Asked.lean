import BoxScript.Proofs.Walking.Scopes

/-!
# Where the walk looks names up

A step for an annotation or an expression that names something looks the name up in the scope that
the walk is in. That is the scope around the statements that are gone through, or one that the walk
opens while it goes through them (`Walk.asks_stmts` and the lemmas before it).
-/

set_option autoImplicit false

namespace BoxScript

namespace Step

/-- A name that is looked up, with the scope that it stands in and the mark of its node. -/
structure Lookup where
  scope : ScopeId
  mark : Mark
  name : String

/-- The name that the rule of a step looks up. -/
def asked : Step → Option Lookup
  | .typeExpr scope (.named mark name) => some ⟨scope, mark, name⟩
  | .expr scope _ (.symbol mark name) => some ⟨scope, mark, name⟩
  | .expr scope _ (.constructor mark name) => some ⟨scope, mark, name⟩
  | .expr scope _ (.create mark name) => some ⟨scope, mark, name⟩
  | _ => none

/-- Steps that look names up in given scopes, or in those that they open from a number on. -/
def AsksWithin (home : ScopeId → Prop) (next : ScopeId) (steps : List Step) : Prop :=
  ∀ step ∈ steps, ∀ asked, step.asked = some asked →
    home asked.scope ∨ next ≤ asked.scope ∧ asked.scope < next + opened steps

variable {home : ScopeId → Prop} {next : ScopeId} {first second steps : List Step}

theorem AsksWithin.append (before : AsksWithin home next first)
    (after : AsksWithin home (next + opened first) second) :
    AsksWithin home next (first ++ second) := by
  intro step member asked is
  rw [opened_append, ← Nat.add_assoc]
  rcases List.mem_append.mp member with here | there
  · exact (before step here asked is).imp_right fun range =>
      ⟨range.1, Nat.lt_of_lt_of_le range.2 (Nat.le_add_right _ _)⟩
  · exact (after step there asked is).imp_right fun range =>
      ⟨Nat.le_trans (Nat.le_add_right _ _) range.1, range.2⟩

theorem AsksWithin.imp {further : ScopeId → Prop} (asks : AsksWithin home next steps)
    (implies : ∀ scope, home scope → further scope) : AsksWithin further next steps :=
  fun step member asked is => (asks step member asked is).imp_left (implies _)

/-- The first scope that steps open is one of those that they open. -/
theorem AsksWithin.absorb {scope : ScopeId}
    (asks : AsksWithin (fun home => home = scope ∨ home = next) next steps)
    (opens : 0 < opened steps) : AsksWithin (· = scope) next steps := by
  intro step member asked is
  rcases asks step member asked is with (own | first) | range
  · exact .inl own
  · rw [first]
    exact .inr ⟨Nat.le_refl _, Nat.lt_add_of_pos_right opens⟩
  · exact .inr range

/-- Steps that look no name up. -/
theorem asksWithin_of_none (none : ∀ step ∈ steps, step.asked = none) :
    AsksWithin home next steps := by
  intro step member asked is
  rw [none step member] at is
  cases is

/-- Steps in a scope that has just been opened. -/
theorem AsksWithin.opened {kind : ScopeKind} {parent : ScopeId}
    (inside : AsksWithin (· = next) (next + 1) steps) :
    AsksWithin home next (.openScope next kind parent :: steps) := by
  intro step member asked is
  rw [opened_openScope_cons, ← Nat.add_assoc]
  rcases List.mem_cons.mp member with rfl | further
  · cases is
  · rcases inside step further asked is with own | ⟨low, high⟩
    · rw [own]
      exact .inr ⟨Nat.le_refl _, Nat.lt_of_lt_of_le (Nat.lt_succ_self _) (Nat.le_add_right _ _)⟩
    · exact .inr ⟨Nat.le_of_succ_le low, high⟩

/-- Steps all of whose names are looked up in one scope. -/
theorem asksWithin_of_home {scope : ScopeId}
    (home : ∀ step ∈ steps, ∀ asked, step.asked = some asked → asked.scope = scope) :
    AsksWithin (· = scope) next steps :=
  fun step member asked is => .inl (home step member asked is)

end Step

namespace Walk

open Step

variable {scope next : ScopeId}

theorem asks_typeExpr (type : TypeExpr) : AsksWithin (· = scope) next (typeExpr scope type) := by
  refine asksWithin_of_home ?_
  induction type with
  | named mark name =>
    intro step member asked is
    rw [List.mem_singleton.mp member] at is
    cases is
    rfl
  | array mark component ih =>
    intro step member asked is
    rcases List.mem_append.mp member with inside | own
    · exact ih step inside asked is
    · rw [List.mem_singleton.mp own] at is
      cases is

theorem asks_expr (expectation : Expectation) (e : Expr) :
    AsksWithin (· = scope) next (expr scope expectation e) := by
  refine asksWithin_of_home fun step member asked is => ?_
  obtain ⟨_, inner, rfl⟩ := expressions_expr scope expectation e step member
  cases inner <;> cases is <;> rfl

theorem asks_hoist (body : List Stmt) : AsksWithin (· = scope) next (hoist scope body) := by
  refine asksWithin_of_none ?_
  induction body with
  | nil => simp [hoist]
  | cons s rest ih => cases s <;> simp_all [hoist, asked]

theorem asks_parameterTypes (names : List TypedName) :
    AsksWithin (· = scope) next (parameterTypes scope names) := by
  induction names with
  | nil => exact asksWithin_of_none (by simp [parameterTypes])
  | cons name rest ih =>
    refine (asks_typeExpr name.type).append ?_
    rw [(plain_typeExpr scope name.type).opened]
    exact ih

theorem asks_parameters (names : List TypedName) :
    AsksWithin (· = scope) next (parameters scope names) := by
  refine asksWithin_of_none ?_
  induction names with
  | nil => simp [parameters]
  | cons name rest ih => simpa [parameters, annotated, asked] using ih

theorem asks_fields {members : ScopeId} (owner : String) (names : List TypedName) :
    AsksWithin (· = scope) next (fields scope members owner names) := by
  refine asksWithin_of_home ?_
  induction names with
  | nil => simp [fields]
  | cons name rest ih =>
    intro step member asked is
    simp only [fields, List.mem_append, List.mem_cons, List.not_mem_nil, or_false] at member
    rcases member with (inside | rfl | rfl) | further
    · have types : AsksWithin (· = scope) 0 (typeExpr scope name.type) := asks_typeExpr name.type
      rcases types step inside asked is with own | ⟨_, high⟩
      · exact own
      · rw [(plain_typeExpr scope name.type).opened] at high
        exact absurd high (Nat.not_lt_zero _)
    · cases is
    · cases is
    · exact ih step further asked is

theorem asks_declareMembers {home : ScopeId → Prop} {members : ScopeId} (all : List Member) :
    AsksWithin home next (declareMembers members all) := by
  refine asksWithin_of_none ?_
  induction all with
  | nil => simp [declareMembers]
  | cons member rest ih => cases member <;> simpa [declareMembers, asked] using ih

/-- A step that looks no name up. -/
theorem asks_single {home : ScopeId → Prop} {step : Step} (none : step.asked = none) :
    AsksWithin home next [step] :=
  asksWithin_of_none (by simp [none])

theorem asks_varDecl (decl : VariableDecl) : AsksWithin (· = scope) next (varDecl scope decl) := by
  obtain ⟨mark, name, form⟩ := decl
  have declared : ∀ later : ScopeId, AsksWithin (· = scope) later [.declare scope name .var mark
      mark.span.stop.offset, .returns mark false] :=
        fun later => asksWithin_of_none (by simp [asked])
  cases form with
  | typed type value =>
    cases value with
    | none =>
      exact ((asks_typeExpr type).append (declared _)).append (asks_single rfl)
    | some value =>
      exact (((asks_typeExpr type).append (asks_expr _ value)).append (declared _)).append
        (asksWithin_of_none (by simp [annotated, asked]))
  | inferred value => exact ((asks_expr .none value).append (declared _)).append (asks_single rfl)

theorem asks_test (statement : Conditional) (condition : Expr) :
    AsksWithin (· = scope) next (test scope statement condition) :=
  (asks_expr .none condition).append (asks_single rfl)

/-- The body of a branch or loop, once it is known of the statement. -/
theorem asks_branch_of {enclosing : Option FunctionDecl} {s : Stmt}
    (body : ∀ scope next : ScopeId, AsksWithin (· = scope) next (stmt scope next enclosing s))
    (scope next : ScopeId) : AsksWithin (· = scope) next (branch scope next enclosing s) := by
  by_cases isBlock : ∃ b, s = .block b
  · obtain ⟨b, rfl⟩ := isBlock
    exact body scope next
  · rw [branch_alone enclosing fun b is => isBlock ⟨b, is⟩]
    refine AsksWithin.opened (((asks_hoist [s]).append ?_).append
      (asksWithin_of_none (by simp)))
    rw [opened_hoist, Nat.add_zero]
    simpa only [stmts, List.append_nil] using body next (next + 1)

mutual

/-- Going through a statement, the walk looks names up in its scope or in one that it opens. -/
theorem asks_stmt (enclosing : Option FunctionDecl) : ∀ (s : Stmt) (scope next : ScopeId),
    AsksWithin (· = scope) next (stmt scope next enclosing s)
  | .block b, scope, next => asks_block enclosing b scope next
  | .expression mark e, scope, next => (asks_expr .none e).append (asks_single rfl)
  | .var decl, scope, next => asks_varDecl decl
  | .function decl, scope, next => (asks_function decl scope next).append (asks_single rfl)
  | .struct decl, scope, next => by
    have first : AsksWithin (· = scope) next
        [.returns decl.mark false, .openScope next .struct scope] :=
      asksWithin_of_none (by simp [asked])
    exact (first.append (asks_fields decl.name decl.fields)).append (asks_single rfl)
  | .box decl, scope, next => asks_box decl scope next
  | .ifElse mark condition thenBody none, scope, next => by
    rw [stmt_ifThen]
    refine ((asks_test .if condition).append ?_).append (asks_single rfl)
    rw [(plain_test scope .if condition).opened, Nat.add_zero]
    exact asks_branch_of (asks_stmt enclosing thenBody) scope next
  | .ifElse mark condition thenBody (some elseBody), scope, next => by
    rw [stmt_ifElse]
    refine ((asks_test .if condition).append ?_).append (asks_single rfl)
    rw [(plain_test scope .if condition).opened, Nat.add_zero]
    exact (asks_branch_of (asks_stmt enclosing thenBody) scope next).append
      (asks_branch_of (asks_stmt enclosing elseBody) scope _)
  | .while mark condition body, scope, next => by
    rw [stmt_while]
    refine ((asks_test .while condition).append ?_).append (asks_single rfl)
    rw [(plain_test scope .while condition).opened, Nat.add_zero]
    exact asks_branch_of (asks_stmt enclosing body) scope next
  | .return mark value, scope, next => by
    have last : ∀ later : ScopeId, AsksWithin (· = scope) later (.returns mark true ::
        match enclosing with
        | some enclosing => [.rule (.returned mark value enclosing)]
        | none => []) := by
      intro later
      cases enclosing <;> exact asksWithin_of_none (by simp [asked])
    cases value with
    | none => exact last next
    | some value => exact (asks_expr _ value).append (last _)

theorem asks_block (enclosing : Option FunctionDecl) : ∀ (b : Block) (scope next : ScopeId),
    AsksWithin (· = scope) next (block scope next enclosing b)
  | ⟨mark, body⟩, scope, next => by
    refine AsksWithin.opened (((asks_hoist body).append ?_).append (asks_single rfl))
    rw [opened_hoist, Nat.add_zero]
    exact asks_stmts enclosing body next (next + 1)

theorem asks_stmts (enclosing : Option FunctionDecl) : ∀ (body : List Stmt) (scope next : ScopeId),
    AsksWithin (· = scope) next (stmts scope next enclosing body)
  | [], _, _ => asksWithin_of_none (by simp [stmts])
  | s :: rest, scope, next =>
    (asks_stmt enclosing s scope next).append (asks_stmts enclosing rest scope _)

theorem asks_function : ∀ (decl : FunctionDecl) (scope next : ScopeId),
    AsksWithin (· = scope) next (function scope next decl)
  | ⟨mark, name, params, result, body⟩, scope, next => by
    have types : AsksWithin (· = scope) next (parameterTypes scope params) :=
      asks_parameterTypes params
    have none := (plain_parameterTypes scope params).opened
    have block := asks_block (some ⟨mark, name, params, result, body⟩) body next (next + 1)
    have names : AsksWithin (· = next) (next + 1) (parameters next params) := asks_parameters params
    have signed : ∀ {last : List Step}, AsksWithin (· = next) (next + 1 + opened (Walk.block next
        (next + 1) (some ⟨mark, name, params, result, body⟩) body)) last →
        AsksWithin (· = next) (next + 1) (parameters next params ++ .rule (.signature
          ⟨mark, name, params, result, body⟩) :: (Walk.block next (next + 1)
            (some ⟨mark, name, params, result, body⟩) body ++ last)) := by
      intro last after
      refine names.append ?_
      rw [opened_parameters, Nat.add_zero]
      refine AsksWithin.append (asks_single rfl : AsksWithin _ _ [_]) ?_
      rw [opened_rule_cons, opened_nil, Nat.add_zero]
      exact block.append after
    cases result with
    | none =>
      refine (types.append (asksWithin_of_none (by simp))).append ?_
      rw [opened_append, none, opened_nil, Nat.add_zero, Nat.add_zero]
      exact AsksWithin.opened (signed (asksWithin_of_none (by simp)))
    | some type =>
      have given := (plain_typeExpr scope type).opened
      refine (types.append (asks_typeExpr type)).append ?_
      rw [opened_append, none, given, Nat.add_zero, Nat.add_zero]
      exact AsksWithin.opened (signed (asks_single rfl))

theorem asks_box : ∀ (decl : BoxDecl) (scope next : ScopeId),
    AsksWithin (· = scope) next (box scope next decl)
  | ⟨mark, name, members⟩, scope, next => by
    have around : AsksWithin (fun home => home = scope ∨ home = next) next
        (box scope next ⟨mark, name, members⟩) := by
      refine (((asksWithin_of_none (by simp [asked])).append
        (asks_declareMembers members)).append (asks_single rfl)).append ?_
      simp only [opened_append, opened_returns_cons, opened_openScope_cons, opened_nil,
        opened_declareMembers, opened_setMembers_cons, Nat.add_zero]
      exact asks_boxMembers name members scope next (next + 1)
    refine around.absorb ?_
    simp only [box, opened_append, opened_returns_cons, opened_openScope_cons]
    omega

theorem asks_boxMembers (owner : String) : ∀ (members : List Member) (scope inner next : ScopeId),
    AsksWithin (fun home => home = scope ∨ home = inner) next
      (boxMembers scope inner next owner members)
  | [], _, _, _ => asksWithin_of_none (by simp [boxMembers])
  | .attr decl :: rest, scope, inner, next => by
    have types : AsksWithin (· = scope) next (typeExpr scope decl.type) := asks_typeExpr decl.type
    refine ((types.imp fun _ => .inl).append (asks_single rfl)).append ?_
    rw [opened_append, (plain_typeExpr scope decl.type).opened]
    exact asks_boxMembers owner rest scope inner next
  | .meth decl :: rest, scope, inner, next =>
    ((asks_function decl inner next).imp fun _ => .inr).append
      (asks_boxMembers owner rest scope inner _)

end

/-- The walk over a program looks names up in scopes that it opens. -/
theorem asks_program {body : List Stmt} {step : Step} (member : step ∈ program body)
    {asked : Step.Lookup} (is : step.asked = some asked) :
    0 < asked.scope ∧ asked.scope < 1 + opened (program body) := by
  have inside : AsksWithin (fun _ => False) 1 (program body) := by
    refine AsksWithin.opened ((asks_hoist body).append ?_)
    rw [opened_hoist, Nat.add_zero]
    exact asks_stmts none body 1 2
  rcases inside step member asked is with none | ⟨low, high⟩
  · exact none.elim
  · exact ⟨low, high⟩

end Walk

end BoxScript
