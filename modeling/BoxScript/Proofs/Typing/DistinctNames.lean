import BoxScript.Proofs.Typing.System
import BoxScript.Proofs.Walking.Lookup
import BoxScript.Proofs.Walking.Ownership

/-!
# Distinct names

The walk over a program reports no duplicate name if and only if no scope of the program has a name
twice (`Program.errors_survey_iff`). The scopes of the walk are numbers, and those of the program
are the constructs that open them. A construct owns the scopes that its steps open, so the two are
compared construct by construct (`Walk.distinctFrom_stmt`).
-/

set_option autoImplicit false

namespace BoxScript

/-! ## Names that a survey reports -/

namespace Survey

open SymbolTable

variable {survey : Survey} {before steps : List Step}

/-- The names of a scope that the table reflects are distinct. -/
theorem nodup_contents (reflects : survey.symbols.Reflects before)
    (ordered : Step.Ordered 1 before) (scope : ScopeId) :
    ((Step.contents scope before).map Declaration.name).Nodup := by
  cases present : survey.symbols.scopes[scope]? with
  | some found =>
    rw [← reflects.names_eq present]
    exact reflects.distinct present
  | none =>
    have closed : 1 + Step.opened before ≤ scope := by
      rw [← reflects.size]
      exact Array.getElem?_eq_none_iff.mp present
    have outer : scope ≠ builtinScope :=
      Nat.ne_of_gt (Nat.lt_of_lt_of_le Nat.zero_lt_one (Nat.le_of_add_right_le closed))
    rw [Step.contents, if_neg outer, ordered.declared_eq_nil closed]
    exact List.nodup_nil

/-- A step whose names are new in their scopes is followed without an error. -/
theorem errors_take {step : Step} (reflects : survey.symbols.Reflects before)
    (clean : survey.errors = #[])
    (distinct : ∀ scope, ((Step.contents scope (before ++ [step])).map Declaration.name).Nodup) :
    (survey.take step).errors = #[] := by
  cases step with
  | declare scope name kind mark position =>
    have vacant : survey.symbols.declaredIn? scope name = none := by
      by_contra taken
      obtain ⟨id, found⟩ := Option.ne_none_iff_exists'.mp taken
      obtain ⟨decl, holds, _, same⟩ := reflects.declaredIn found
      have names := distinct scope
      rw [Step.contents_append, Step.declared_declare_cons, if_pos rfl, List.map_append,
        List.nodup_append] at names
      exact names.2.2 _ (List.mem_map.mpr ⟨decl, holds, same⟩) _ (by simp) rfl
    simp [take, declare, vacant, clean]
  | _ => exact clean

/-- Following steps reports no name if the steps declare no name twice in one scope. -/
theorem errors_foldl_iff (reflects : survey.symbols.Reflects before)
    (ordered : Step.Ordered 1 (before ++ steps)) (clean : survey.errors = #[]) :
    (steps.foldl take survey).errors = #[] ↔
      ∀ scope, ((Step.contents scope (before ++ steps)).map Declaration.name).Nodup := by
  constructor
  · intro quiet
    exact nodup_contents (reflects_foldl reflects ordered quiet) ordered
  · intro distinct
    induction steps generalizing survey before with
    | nil => exact clean
    | cons step rest ih =>
      rw [List.append_cons] at ordered distinct
      have quiet : (survey.take step).errors = #[] := by
        apply errors_take reflects clean
        intro scope
        have names := distinct scope
        rw [Step.contents_append, List.map_append] at names
        exact names.of_append_left
      exact ih (reflects_take reflects (Step.ordered_append.mp ordered).1 quiet) ordered quiet
        distinct

end Survey

/-! ## Distinct names from a scope on -/

namespace Step

/-- Whether steps declare no name twice in one of the scopes from a number on. -/
def DistinctFrom (next : ScopeId) (steps : List Step) : Prop :=
  ∀ scope, next ≤ scope → ((declared scope steps).map Declaration.name).Nodup

variable {next : ScopeId} {first second : List Step}

theorem distinctFrom_congr
    (same : ∀ scope, next ≤ scope → declared scope first = declared scope second) :
    DistinctFrom next first ↔ DistinctFrom next second := by
  apply forall_congr'
  intro scope
  apply imp_congr_right
  intro lower
  rw [same scope lower]

theorem distinctFrom_of_nil (none : ∀ scope, next ≤ scope → declared scope first = []) :
    DistinctFrom next first := by
  intro scope lower
  rw [none scope lower]
  exact List.nodup_nil

/-- A scope that opens first, and the scopes after it. -/
theorem distinctFrom_openScope {kind : ScopeKind} {parent : ScopeId} :
    DistinctFrom next (.openScope next kind parent :: first) ↔
      ((declared next first).map Declaration.name).Nodup ∧ DistinctFrom (next + 1) first := by
  constructor
  · intro distinct
    exact ⟨distinct next (Nat.le_refl _), fun scope lower => distinct scope (Nat.le_of_lt lower)⟩
  · rintro ⟨here, later⟩ scope lower
    rcases Nat.eq_or_lt_of_le lower with rfl | lower
    · exact here
    · exact later scope lower

/-- Two stretches, of which the second declares nothing in the scopes that the first opens. -/
theorem distinctFrom_append (ordered : Ordered next first)
    (apart : ∀ scope, next ≤ scope → scope < next + opened first → declared scope second = []) :
    DistinctFrom next (first ++ second) ↔
      DistinctFrom next first ∧ DistinctFrom (next + opened first) second := by
  have either : ∀ scope, next ≤ scope → declared scope second = [] ∨
      next + opened first ≤ scope ∧ declared scope first = [] := by
    intro scope lower
    rcases Nat.lt_or_ge scope (next + opened first) with upper | later
    · exact .inl (apart scope lower upper)
    · exact .inr ⟨later, ordered.declared_eq_nil later⟩
  constructor
  · intro distinct
    constructor
    · intro scope lower
      have names := distinct scope lower
      rw [declared_append, List.map_append] at names
      exact names.of_append_left
    · intro scope lower
      have names := distinct scope (Nat.le_trans (Nat.le_add_right _ _) lower)
      rw [declared_append, List.map_append] at names
      exact names.of_append_right
  · rintro ⟨left, right⟩ scope lower
    rw [declared_append]
    rcases either scope lower with none | ⟨later, none⟩
    · rw [none, List.append_nil]
      exact left scope lower
    · rw [none, List.nil_append]
      exact right scope later

end Step

/-! ## The scopes of constructs -/

namespace Walk

open Step

variable {scope next : ScopeId}

/-- The names of the scope of statements are those that the statements declare. -/
theorem nodup_declarations (body : List Stmt) :
    ((declarations scope body).map Declaration.name).Nodup ↔
      (body.filterMap Stmt.declaredName?).Nodup := by
  have mixed : (body.flatMap fun s => hoisted scope s ++ introduced scope s).map Declaration.name =
      body.filterMap Stmt.declaredName? := by
    induction body with
    | nil => rfl
    | cons s rest ih =>
      rw [List.flatMap_cons, List.map_append, ih]
      cases s <;> rfl
  rw [← mixed]
  exact ((List.flatMap_append_perm body _ _).map Declaration.name).nodup_iff

/-- The scope of statements has each name once, and so do the scopes inside. -/
theorem distinctFrom_body {kind : ScopeKind} {enclosing : Option FunctionDecl} {body : List Stmt}
    {rest : List Step} (plain : Plain rest) :
    DistinctFrom next (.openScope next kind scope ::
      (hoist next body ++ stmts next (next + 1) enclosing body ++ rest)) ↔
      (body.filterMap Stmt.declaredName?).Nodup ∧
        DistinctFrom (next + 1) (stmts next (next + 1) enclosing body) := by
  rw [distinctFrom_openScope]
  apply and_congr
  · rw [declared_append, declared_append, plain.declared, declared_hoist, if_pos rfl,
      declared_stmts next (Nat.lt_succ_self next), if_pos rfl, List.append_nil]
    exact nodup_declarations body
  · apply distinctFrom_congr
    intro home lower
    rw [declared_append, declared_append, plain.declared, declared_hoist,
      if_neg (Nat.ne_of_lt lower), List.append_nil, List.nil_append]

theorem distinctFrom_between {first middle last : List Step} (before : Plain first)
    (after : Plain last) :
    DistinctFrom next (first ++ middle ++ last) ↔ DistinctFrom next middle :=
  distinctFrom_congr fun home _ => declared_between before after home

/-- The scope of a branch, if it has one, has one name at most. -/
theorem distinctFrom_branch_of {enclosing : Option FunctionDecl} {s : Stmt}
    (each : ∀ scope next : ScopeId, 0 < scope → scope < next →
      (DistinctFrom next (stmt scope next enclosing s) ↔ s.NamesDistinct))
    (positive : 0 < scope) (inside : scope < next) :
    DistinctFrom next (branch scope next enclosing s) ↔ s.NamesDistinct := by
  by_cases isBlock : ∃ b, s = .block b
  · obtain ⟨b, rfl⟩ := isBlock
    exact each scope next positive inside
  · have noBlock : ∀ b, s ≠ .block b := not_exists.mp isBlock
    have alone : ([s].filterMap Stmt.declaredName?).Nodup := by
      cases name : s.declaredName? <;> simp [name]
    rw [branch_alone enclosing noBlock, distinctFrom_body plain_nil, stmts, stmts, List.append_nil,
      each next (next + 1) (Nat.lt_trans positive inside) (Nat.lt_succ_self next)]
    exact and_iff_right alone

mutual

/-- A statement declares no name twice in one of the scopes that it opens. -/
theorem distinctFrom_stmt (enclosing : Option FunctionDecl) : ∀ (s : Stmt) (scope next : ScopeId),
    0 < scope → scope < next →
    (DistinctFrom next (stmt scope next enclosing s) ↔ s.NamesDistinct)
  | .block b => fun scope next positive inside =>
    distinctFrom_block enclosing b scope next (Nat.lt_trans positive inside)
  | .expression _ e => by
    intro scope next _ _
    refine iff_of_true (distinctFrom_of_nil fun home _ => ?_) trivial
    simp [stmt, (plain_expr scope .none e).declared]
  | .var decl => by
    intro scope next _ inside
    refine iff_of_true (distinctFrom_of_nil fun home lower => ?_) trivial
    rw [stmt, declared_varDecl, if_neg (Nat.ne_of_lt (Nat.lt_of_lt_of_le inside lower))]
  | .function decl => by
    intro scope next _ inside
    rw [Stmt.NamesDistinct, ← distinctFrom_function decl scope next]
    exact distinctFrom_congr fun home _ => by simp [stmt]
  | .struct decl => by
    intro scope next _ _
    have same : ∀ home, next ≤ home → declared home (stmt scope next enclosing (.struct decl)) =
        declared home (.openScope next .struct scope :: fields scope next decl.name decl.fields) :=
      fun home _ => by simp [stmt, struct]
    have inner : DistinctFrom (next + 1) (fields scope next decl.name decl.fields) :=
      distinctFrom_of_nil fun home lower => by
        rw [declared_fields, if_neg (Nat.ne_of_lt lower)]
    rw [distinctFrom_congr same, distinctFrom_openScope, declared_fields, if_pos rfl, List.map_map]
    exact and_iff_left inner
  | .box ⟨mark, name, members⟩ => by
    intro scope next _ _
    have same : ∀ home, next ≤ home →
        declared home (stmt scope next enclosing (.box ⟨mark, name, members⟩)) =
          declared home (.openScope next .box scope :: (declareMembers next members ++
            boxMembers scope next (next + 1) name members)) :=
      fun home _ => by simp [stmt, box]
    have names :
        (members.map (membership next)).map Declaration.name = members.map Member.name := by
      rw [List.map_map]
      exact List.map_congr_left fun member _ => by cases member <;> rfl
    have inner : DistinctFrom (next + 1) (declareMembers next members ++
        boxMembers scope next (next + 1) name members) ↔ Member.AllNamesDistinct members := by
      rw [← distinctFrom_boxMembers name members scope next (next + 1) (Nat.lt_succ_self next)]
      refine distinctFrom_congr fun home lower => ?_
      rw [declared_append, declared_declareMembers, if_neg (Nat.ne_of_lt lower), List.nil_append]
    rw [distinctFrom_congr same, distinctFrom_openScope, declared_append, declared_declareMembers,
      if_pos rfl, declared_boxMembers scope next (Nat.lt_succ_self next), List.append_nil, names,
      inner, Stmt.NamesDistinct, BoxDecl.NamesDistinct]
  | .ifElse mark condition thenBody none => by
    intro scope next positive inside
    rw [stmt_ifThen, distinctFrom_between (plain_test scope .if condition) (plain_single rfl)]
    exact distinctFrom_branch_of (distinctFrom_stmt enclosing thenBody) positive inside
  | .ifElse mark condition thenBody (some elseBody) => by
    intro scope next positive inside
    have first := distinctFrom_branch_of (distinctFrom_stmt enclosing thenBody) positive inside
    have second := distinctFrom_branch_of (distinctFrom_stmt enclosing elseBody) positive
      (Nat.lt_add_right (opened (branch scope next enclosing thenBody)) inside)
    rw [stmt_ifElse, distinctFrom_between (plain_test scope .if condition) (plain_single rfl),
      distinctFrom_append (ordered_branch positive inside thenBody)
        (fun home _ upper => declared_branch upper elseBody), first, second, Stmt.NamesDistinct]
  | .while mark condition body => by
    intro scope next positive inside
    rw [stmt_while, distinctFrom_between (plain_test scope .while condition) (plain_single rfl)]
    exact distinctFrom_branch_of (distinctFrom_stmt enclosing body) positive inside
  | .return mark value => by
    intro scope next _ _
    refine iff_of_true (distinctFrom_of_nil fun home _ => ?_) trivial
    cases enclosing <;> cases value <;> simp [stmt, (plain_expr scope _ _).declared]

theorem distinctFrom_block (enclosing : Option FunctionDecl) : ∀ (b : Block)
    (scope next : ScopeId), 0 < next →
    (DistinctFrom next (block scope next enclosing b) ↔ b.NamesDistinct)
  | ⟨mark, body⟩ => by
    intro scope next positive
    rw [block, distinctFrom_body (plain_single rfl),
      distinctFrom_stmts enclosing body next (next + 1) positive (Nat.lt_succ_self next),
      Block.NamesDistinct]

theorem distinctFrom_stmts (enclosing : Option FunctionDecl) : ∀ (body : List Stmt)
    (scope next : ScopeId), 0 < scope → scope < next →
    (DistinctFrom next (stmts scope next enclosing body) ↔ Stmt.AllNamesDistinct body)
  | [] => fun _ _ _ _ => iff_of_true (distinctFrom_of_nil fun _ _ => rfl) trivial
  | s :: rest => by
    intro scope next positive inside
    have apart : ∀ home, next ≤ home → home < next + opened (stmt scope next enclosing s) →
        declared home (stmts scope (next + opened (stmt scope next enclosing s)) enclosing rest)
          = [] := by
      intro home lower upper
      rw [declared_stmts scope upper, if_neg (Nat.ne_of_lt (Nat.lt_of_lt_of_le inside lower))]
    rw [stmts, distinctFrom_append (ordered_stmt positive inside enclosing s) apart,
      distinctFrom_stmt enclosing s scope next positive inside,
      distinctFrom_stmts enclosing rest scope _ positive (Nat.lt_add_right _ inside),
      Stmt.AllNamesDistinct]

theorem distinctFrom_function : ∀ (decl : FunctionDecl) (scope next : ScopeId),
    DistinctFrom next (function scope next decl) ↔ decl.NamesDistinct
  | ⟨mark, name, names, result, body⟩ => by
    intro scope next
    let enclosing : Option FunctionDecl := some ⟨mark, name, names, result, body⟩
    have same : ∀ home, next ≤ home →
        declared home (function scope next ⟨mark, name, names, result, body⟩) =
          declared home (.openScope next .function scope ::
            (parameters next names ++ block next (next + 1) enclosing body)) := by
      intro home _
      cases result <;> simp [enclosing, function, (plain_parameterTypes scope names).declared,
        (plain_typeExpr scope _).declared]
    have inner : DistinctFrom (next + 1) (parameters next names ++
        block next (next + 1) enclosing body) ↔ body.NamesDistinct := by
      rw [← distinctFrom_block enclosing body next (next + 1) (Nat.succ_pos next)]
      refine distinctFrom_congr fun home lower => ?_
      rw [declared_append, declared_parameters, if_neg (Nat.ne_of_lt lower), List.nil_append]
    rw [distinctFrom_congr same, distinctFrom_openScope, declared_append, declared_parameters,
      if_pos rfl, declared_block next (Nat.lt_succ_self next), List.append_nil, inner, List.map_map,
      FunctionDecl.NamesDistinct]
    rfl

theorem distinctFrom_boxMembers (owner : String) : ∀ (members : List Member)
    (scope inner next : ScopeId), inner < next →
    (DistinctFrom next (boxMembers scope inner next owner members) ↔
      Member.AllNamesDistinct members)
  | [] => fun _ _ _ _ => iff_of_true (distinctFrom_of_nil fun _ _ => rfl) trivial
  | .attr decl :: rest => by
    intro scope inner next inside
    rw [Member.AllNamesDistinct, ← distinctFrom_boxMembers owner rest scope inner next inside]
    refine distinctFrom_congr fun home _ => ?_
    simp [boxMembers, annotated, (plain_typeExpr scope decl.type).declared]
  | .meth decl :: rest => by
    intro scope inner next inside
    rw [boxMembers, distinctFrom_append (ordered_function inside decl)
      (fun home _ upper => declared_boxMembers scope inner upper owner rest),
      distinctFrom_function decl inner next,
      distinctFrom_boxMembers owner rest scope inner _ (Nat.lt_add_right _ inside),
      Member.AllNamesDistinct]

end

end Walk

/-! ## Programs -/

/-- No scope of a walk has a name twice, if none has that the walk opens. -/
theorem Step.nodup_contents_iff {steps : List Step}
    (outer : declared SymbolTable.builtinScope steps = []) :
    (∀ scope, ((contents scope steps).map Declaration.name).Nodup) ↔ DistinctFrom 1 steps := by
  have inner : ∀ scope, 1 ≤ scope → contents scope steps = declared scope steps := by
    intro scope lower
    have apart : scope ≠ SymbolTable.builtinScope := Nat.ne_of_gt lower
    rw [contents, if_neg apart, List.nil_append]
  constructor
  · intro distinct scope lower
    exact inner scope lower ▸ distinct scope
  · intro distinct scope
    rcases Nat.eq_zero_or_pos scope with rfl | lower
    · have builtins :
          contents SymbolTable.builtinScope steps = SymbolTable.builtinDeclarations := by
        rw [contents, if_pos rfl, outer, List.append_nil]
      change ((contents SymbolTable.builtinScope steps).map Declaration.name).Nodup
      rw [builtins]
      decide
    · exact (inner scope lower).symm ▸ distinct scope lower

/-- The walk over a program reports no duplicate name if no scope of the program has a name
twice. -/
theorem Program.errors_survey_iff {program : Program} :
    (survey program.steps).errors = #[] ↔ Block.NamesDistinct program := by
  obtain ⟨mark, body⟩ := program
  have ordered : Step.Ordered 1 ([] ++ Walk.program body) := Walk.ordered_program body
  have outer : Step.declared SymbolTable.builtinScope (Walk.program body) = [] := by
    have inside : Step.declared SymbolTable.builtinScope (Walk.stmts 1 2 none body) = [] :=
      Walk.declared_stmts 1 Nat.two_pos none body
    rw [Walk.program, Step.declared_openScope_cons, Step.declared_append, Walk.declared_hoist,
      inside]
    rfl
  have opened : Walk.program body = .openScope 1 .root SymbolTable.builtinScope ::
      (Walk.hoist 1 body ++ Walk.stmts 1 2 none body ++ []) := by
    rw [List.append_nil, Walk.program]
  calc (survey (Walk.program body)).errors = #[]
    _ ↔ ∀ scope, ((Step.contents scope (Walk.program body)).map Declaration.name).Nodup :=
      Survey.errors_foldl_iff SymbolTable.reflects_initial ordered rfl
    _ ↔ Step.DistinctFrom 1 (Walk.program body) := Step.nodup_contents_iff outer
    _ ↔ (body.filterMap Stmt.declaredName?).Nodup ∧
        Step.DistinctFrom 2 (Walk.stmts 1 2 none body) := by
      rw [opened]
      exact Walk.distinctFrom_body Step.plain_nil
    _ ↔ Block.NamesDistinct ⟨mark, body⟩ := by
      rw [Walk.distinctFrom_stmts none body 1 2 Nat.one_pos Nat.one_lt_two, Block.NamesDistinct]

end BoxScript
