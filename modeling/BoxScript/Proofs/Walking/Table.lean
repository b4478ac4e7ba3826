import BoxScript.Proofs.Walking.Scopes
import BoxScript.Typing
import Mathlib.Data.List.Forall2

/-!
# The table of a walk

A symbol table that steps make without an error reflects them (`SymbolTable.Reflects`): it has the
scopes that they open, and each scope holds what they declare in it, under distinct names and in
their order. The declarations of the table are those of the builtins and those of the steps.
-/

set_option autoImplicit false

namespace BoxScript

/-- The declarations of the builtin scope. -/
def SymbolTable.builtinDeclarations : List Declaration :=
  builtins.map fun (name, kind) => ⟨name, kind, none, builtinScope, 0, .none⟩

namespace Step

/-- What a scope holds after steps. -/
def contents (scope : ScopeId) (steps : List Step) : List Declaration :=
  (if scope = SymbolTable.builtinScope then SymbolTable.builtinDeclarations else []) ++
    declared scope steps

/-- The member scope that a step names, with the struct or box that it belongs to. -/
def members? : Step → Option (NodeId × ScopeId)
  | .setMembers owner scope => some (owner, scope)
  | _ => none

theorem contents_append (scope : ScopeId) (first second : List Step) :
    contents scope (first ++ second) = contents scope first ++ declared scope second := by
  rw [contents, declared_append, ← List.append_assoc]
  rfl

end Step

namespace SymbolTable

/-- A name of a scope means a declaration of the table. -/
def Means (symbols : SymbolTable) (entry : String × DeclId) (decl : Declaration) : Prop :=
  entry.1 = decl.name ∧ symbols.decls[entry.2]? = some decl

/-- A table with the scopes and declarations of steps. -/
structure Reflects (symbols : SymbolTable) (steps : List Step) : Prop where
  size : symbols.scopes.size = 1 + Step.opened steps
  builtin : ∃ names order, symbols.scopes[0]? = some ⟨.builtin, none, names, order⟩
  opened : ∀ {scope : ScopeId} {kind : ScopeKind} {parent : ScopeId},
    .openScope scope kind parent ∈ steps →
    ∃ names order, symbols.scopes[scope]? = some ⟨kind, some parent, names, order⟩
  scopes : ∀ {scope : ScopeId} {found : Scope}, symbols.scopes[scope]? = some found →
    (scope = builtinScope ∧ found.parent = none) ∨
      ∃ parent, found.parent = some parent ∧ .openScope scope found.kind parent ∈ steps
  names : ∀ {scope : ScopeId} {found : Scope}, symbols.scopes[scope]? = some found →
    List.Forall₂ symbols.Means found.names (Step.contents scope steps)
  distinct : ∀ {scope : ScopeId} {found : Scope}, symbols.scopes[scope]? = some found →
    (found.names.map Prod.fst).Nodup
  ordered : ∀ {scope : ScopeId} {found : Scope}, symbols.scopes[scope]? = some found →
    found.order = found.names.map Prod.snd
  decls : ∀ {id : DeclId} {decl : Declaration}, symbols.decls[id]? = some decl →
    decl ∈ Step.contents decl.scope steps
  members : symbols.memberScopes = (steps.filterMap Step.members?).reverse

theorem initial_eq : initial = ⟨#[⟨.builtin, none, [("Int", 0), ("Float", 1), ("Bool", 2),
    ("String", 3), ("Void", 4), ("Type", 5), ("print", 6)], [0, 1, 2, 3, 4, 5, 6]⟩],
    builtinDeclarations.toArray, []⟩ :=
  rfl

theorem reflects_initial : initial.Reflects [] := by
  have only : ∀ {scope : ScopeId} {found : Scope}, initial.scopes[scope]? = some found →
      scope = 0 ∧ found = ⟨.builtin, none, [("Int", 0), ("Float", 1), ("Bool", 2), ("String", 3),
        ("Void", 4), ("Type", 5), ("print", 6)], [0, 1, 2, 3, 4, 5, 6]⟩ := by
    intro scope found present
    rw [initial_eq] at present
    rcases scope with _ | scope
    · cases present
      exact ⟨rfl, rfl⟩
    · simp at present
  refine ⟨rfl, ⟨_, _, rfl⟩, by simp, ?_, ?_, ?_, ?_, ?_, rfl⟩
  · intro scope found present
    obtain ⟨rfl, rfl⟩ := only present
    exact .inl ⟨rfl, rfl⟩
  · intro scope found present
    obtain ⟨rfl, rfl⟩ := only present
    simp [Step.contents, builtinScope, builtinDeclarations, builtins, Means, initial_eq,
      Builtin.name]
  · intro scope found present
    obtain ⟨rfl, rfl⟩ := only present
    decide
  · intro scope found present
    obtain ⟨rfl, rfl⟩ := only present
    rfl
  · intro id decl present
    have member : decl ∈ builtinDeclarations := by
      rw [initial_eq] at present
      simpa using List.mem_of_getElem? (by simpa using present)
    have home : decl.scope = builtinScope := by
      obtain ⟨_, _, rfl⟩ := List.mem_map.mp member
      rfl
    simp [Step.contents, home, member]

theorem getElem?_push_of_eq_some {α : Type} {items : Array α} {item : α} (last : α) {i : Nat}
    (present : items[i]? = some item) : (items.push last)[i]? = some item := by
  obtain ⟨bound, _⟩ := Array.getElem?_eq_some_iff.mp present
  rw [Array.getElem?_push, if_neg (Nat.ne_of_lt bound), present]

/-- A table to which a declaration is added. -/
def extend (symbols : SymbolTable) (decl : Declaration) : SymbolTable :=
  { symbols with
    decls := symbols.decls.push decl
    scopes := symbols.scopes.modify decl.scope fun s =>
      { s with
        names := s.names ++ [(decl.name, symbols.decls.size)]
        order := s.order ++ [symbols.decls.size] } }

theorem getElem?_extend {symbols : SymbolTable} {decl : Declaration} {scope : ScopeId}
    {found : Scope} (present : (symbols.extend decl).scopes[scope]? = some found) :
    (scope ≠ decl.scope ∧ symbols.scopes[scope]? = some found) ∨
      ∃ old, scope = decl.scope ∧ symbols.scopes[scope]? = some old ∧
        found = { old with
          names := old.names ++ [(decl.name, symbols.decls.size)]
          order := old.order ++ [symbols.decls.size] } := by
  simp only [extend, Array.getElem?_modify] at present
  split at present
  · rename_i same
    obtain ⟨old, oldPresent, rfl⟩ := Option.map_eq_some_iff.mp present
    exact .inr ⟨old, same.symm, oldPresent, rfl⟩
  · rename_i apart
    exact .inl ⟨fun same => apart same.symm, present⟩

theorem Means.extend {symbols : SymbolTable} {decl new : Declaration} {entry : String × DeclId}
    (means : symbols.Means entry decl) : (symbols.extend new).Means entry decl :=
  ⟨means.1, getElem?_push_of_eq_some new means.2⟩

/-- What a scope of the table is, also after more steps. -/
theorem Reflects.scopes_append {symbols : SymbolTable} {before : List Step}
    (reflects : symbols.Reflects before) (more : List Step) {scope : ScopeId} {found : Scope}
    (present : symbols.scopes[scope]? = some found) :
    (scope = builtinScope ∧ found.parent = none) ∨
      ∃ parent, found.parent = some parent ∧
        .openScope scope found.kind parent ∈ before ++ more := by
  rcases reflects.scopes present with outer | ⟨parent, around, member⟩
  · exact .inl outer
  · exact .inr ⟨parent, around, List.mem_append_left _ member⟩

/-- A scope keeps its kind and its parent. -/
theorem scope_extend {symbols : SymbolTable} (decl : Declaration) {scope : ScopeId}
    {kind : ScopeKind} {parent : Option ScopeId}
    (had : ∃ names order, symbols.scopes[scope]? = some ⟨kind, parent, names, order⟩) :
    ∃ names order,
      (symbols.extend decl).scopes[scope]? = some ⟨kind, parent, names, order⟩ := by
  obtain ⟨names, order, present⟩ := had
  simp only [extend, Array.getElem?_modify]
  split
  · exact ⟨_, _, by rw [present]; rfl⟩
  · exact ⟨names, order, present⟩

theorem notMem_of_declaredIn?_eq_none {symbols : SymbolTable} {scope : ScopeId} {found : Scope}
    {name : String} (present : symbols.scopes[scope]? = some found)
    (vacant : symbols.declaredIn? scope name = none) : name ∉ found.names.map Prod.fst := by
  simp only [declaredIn?, present, Option.bind_some, List.lookup_eq_none_iff] at vacant
  intro member
  obtain ⟨entry, inside, same⟩ := List.mem_map.mp member
  simpa [same] using vacant entry inside

theorem Reflects.declare {symbols : SymbolTable} {before : List Step} {scope : ScopeId}
    {name : String} {kind : DeclKind} {mark : Mark} {position : Nat}
    (reflects : symbols.Reflects before) (vacant : symbols.declaredIn? scope name = none) :
    (symbols.extend ⟨name, kind, some mark.id, scope, position, mark.span⟩).Reflects
      (before ++ [.declare scope name kind mark position]) where
  size := by
    simp only [extend, Array.size_modify, reflects.size, Step.opened_append,
      Step.opened_declare_cons, Step.opened_nil, Nat.add_zero]
  builtin := scope_extend _ reflects.builtin
  opened := by
    intro home kind parent member
    rcases List.mem_append.mp member with old | new
    · exact scope_extend _ (reflects.opened old)
    · cases List.mem_singleton.mp new
  scopes := by
    intro home found present
    rcases getElem?_extend present with ⟨_, present⟩ | ⟨old, _, had, rfl⟩
    · exact reflects.scopes_append _ present
    · have around := reflects.scopes_append [.declare scope name kind mark position] had
      exact around
  names := by
    intro home found present
    rw [Step.contents_append, Step.declared_declare_cons, Step.declared_nil, List.append_nil]
    rcases getElem?_extend present with ⟨apart, present⟩ | ⟨old, rfl, had, rfl⟩
    · rw [if_neg (Ne.symm apart), List.append_nil]
      exact (reflects.names present).imp fun _ _ means => means.extend
    · rw [if_pos rfl]
      refine List.rel_append ((reflects.names had).imp fun _ _ means => means.extend) ?_
      exact .cons ⟨rfl, Array.getElem?_push_size⟩ .nil
  distinct := by
    intro home found present
    rcases getElem?_extend present with ⟨_, present⟩ | ⟨old, rfl, had, rfl⟩
    · exact reflects.distinct present
    · have absent := notMem_of_declaredIn?_eq_none had vacant
      rw [List.map_append, List.nodup_append]
      refine ⟨reflects.distinct had, by simp, ?_⟩
      rintro _ member _ last rfl
      cases List.mem_singleton.mp last
      exact absent member
  ordered := by
    intro home found present
    rcases getElem?_extend present with ⟨_, present⟩ | ⟨old, rfl, had, rfl⟩
    · exact reflects.ordered present
    · rw [reflects.ordered had, List.map_append, List.map_singleton]
  decls := by
    intro id decl present
    rw [Step.contents_append]
    simp only [extend, Array.getElem?_push] at present
    split at present
    · cases present
      simp
    · exact List.mem_append_left _ (reflects.decls present)
  members := by
    change symbols.memberScopes = _
    rw [reflects.members, List.filterMap_append]
    simp [Step.members?]

theorem getElem?_push_cases {α : Type} {items : Array α} {last item : α} {i : Nat}
    (present : (items.push last)[i]? = some item) :
    items[i]? = some item ∨ (i = items.size ∧ item = last) := by
  rw [Array.getElem?_push] at present
  split at present
  · rename_i is
    cases present
    exact .inr ⟨is, rfl⟩
  · exact .inl present

theorem Reflects.openScope {symbols : SymbolTable} {before : List Step} (kind : ScopeKind)
    (parent : ScopeId) (reflects : symbols.Reflects before)
    (fresh : Step.contents symbols.scopes.size before = []) :
    (symbols.pushScope kind (some parent)).2.Reflects
      (before ++ [.openScope symbols.scopes.size kind parent]) where
  size := by
    simp only [pushScope, Array.size_push, reflects.size, Step.opened_append,
      Step.opened_openScope_cons, Step.opened_nil, Nat.add_assoc, Nat.add_zero]
  builtin := by
    obtain ⟨names, order, present⟩ := reflects.builtin
    exact ⟨names, order, getElem?_push_of_eq_some _ present⟩
  opened := by
    intro scope kind parent member
    rcases List.mem_append.mp member with old | new
    · obtain ⟨names, order, present⟩ := reflects.opened old
      exact ⟨names, order, getElem?_push_of_eq_some _ present⟩
    · cases List.mem_singleton.mp new
      exact ⟨[], [], Array.getElem?_push_size⟩
  scopes := by
    intro scope found present
    rcases getElem?_push_cases present with old | ⟨rfl, rfl⟩
    · exact reflects.scopes_append _ old
    · exact .inr ⟨parent, rfl, List.mem_append_right _ List.mem_cons_self⟩
  names := by
    intro scope found present
    rw [Step.contents_append, Step.declared_openScope_cons, Step.declared_nil, List.append_nil]
    rcases getElem?_push_cases present with old | ⟨rfl, rfl⟩
    · exact reflects.names old
    · rw [fresh]
      exact .nil
  distinct := by
    intro scope found present
    rcases getElem?_push_cases present with old | ⟨rfl, rfl⟩
    · exact reflects.distinct old
    · exact List.nodup_nil
  ordered := by
    intro scope found present
    rcases getElem?_push_cases present with old | ⟨rfl, rfl⟩
    · exact reflects.ordered old
    · rfl
  decls := by
    intro id decl present
    rw [Step.contents_append, Step.declared_openScope_cons, Step.declared_nil, List.append_nil]
    exact reflects.decls present
  members := by
    change symbols.memberScopes = _
    rw [reflects.members, List.filterMap_append]
    simp [Step.members?]

/-- A step that opens no scope and declares nothing leaves the scopes and the declarations of a
table as they are. -/
theorem Reflects.keep {symbols : SymbolTable} {before : List Step} {step : Step}
    {members : List (NodeId × ScopeId)} (reflects : symbols.Reflects before)
    (opens : Step.opened [step] = 0) (declares : ∀ scope, Step.declared scope [step] = [])
    (named : members = step.members?.toList ++ symbols.memberScopes) :
    ({ symbols with memberScopes := members } : SymbolTable).Reflects (before ++ [step]) where
  size := by
    rw [Step.opened_append, opens]
    exact reflects.size
  builtin := reflects.builtin
  opened := by
    intro scope kind parent member
    rcases List.mem_append.mp member with old | new
    · exact reflects.opened old
    · cases List.mem_singleton.mp new
      cases opens
  scopes := reflects.scopes_append [step]
  names := by
    intro scope found present
    rw [Step.contents_append, declares, List.append_nil]
    exact reflects.names present
  distinct := reflects.distinct
  ordered := reflects.ordered
  decls := by
    intro id decl present
    rw [Step.contents_append, declares, List.append_nil]
    exact reflects.decls present
  members := by
    rw [named, reflects.members, List.filterMap_append, List.reverse_append]
    cases is : step.members? <;> simp [is]

end SymbolTable

namespace Survey

open SymbolTable

variable {survey : Survey} {before : List Step}

theorem reflects_plain {step : Step} (reflects : survey.symbols.Reflects before)
    (plain : step.isPlain = true) : survey.symbols.Reflects (before ++ [step]) := by
  have alone : Step.Plain [step] := Step.plain_single plain
  have members : step.members? = none := by
    cases step <;> first | rfl | cases plain
  exact reflects.keep alone.opened alone.declared (by rw [members]; rfl)

theorem reflects_openScope {scope parent : ScopeId} {kind : ScopeKind}
    (reflects : survey.symbols.Reflects before)
    (ordered : Step.Ordered 1 (before ++ [.openScope scope kind parent])) :
    (survey.take (.openScope scope kind parent)).symbols.Reflects
      (before ++ [.openScope scope kind parent]) := by
  obtain ⟨older, is, _⟩ := Step.ordered_append.mp ordered
  rw [← reflects.size] at is
  subst is
  apply reflects.openScope kind parent
  -- the scope is newer than all that the steps before declare something in
  rw [reflects.size, Step.contents, older.declared_eq_nil (Nat.le_refl _), List.append_nil, if_neg]
  exact Nat.ne_of_gt (Nat.lt_of_lt_of_le Nat.zero_lt_one (Nat.le_add_right 1 _))

/-- Following a step without an error keeps the reflection. -/
theorem reflects_take {step : Step} (reflects : survey.symbols.Reflects before)
    (ordered : Step.Ordered 1 (before ++ [step])) (clean : (survey.take step).errors = #[]) :
    (survey.take step).symbols.Reflects (before ++ [step]) := by
  cases step with
  | openScope scope kind parent => exact reflects_openScope reflects ordered
  | declare scope name kind mark position =>
    simp only [Survey.take, declare] at clean ⊢
    split at clean
    · rename_i id symbols declared
      split at declared
      · cases declared
      · rename_i vacant
        cases declared
        exact reflects.declare (by simpa using vacant)
    · simp at clean
  | setMembers owner scope => exact reflects.keep rfl (fun _ => rfl) rfl
  | typeExpr _ _ | expr _ _ _ | rule _ | returns _ _ => exact reflects_plain reflects rfl

theorem errors_of_take {step : Step} (clean : (survey.take step).errors = #[]) :
    survey.errors = #[] := by
  cases step with
  | declare scope name kind mark position =>
    simp only [Survey.take] at clean
    split at clean
    · exact clean
    · simp at clean
  | _ => exact clean

theorem errors_of_foldl {steps : List Step} (clean : (steps.foldl take survey).errors = #[]) :
    survey.errors = #[] := by
  induction steps generalizing survey with
  | nil => exact clean
  | cons step rest ih => exact errors_of_take (ih clean)

/-- Following steps without an error keeps the reflection. -/
theorem reflects_foldl {steps : List Step} (reflects : survey.symbols.Reflects before)
    (ordered : Step.Ordered 1 (before ++ steps))
    (clean : (steps.foldl take survey).errors = #[]) :
    (steps.foldl take survey).symbols.Reflects (before ++ steps) := by
  induction steps generalizing survey before with
  | nil =>
    rw [List.append_nil]
    exact reflects
  | cons step rest ih =>
    rw [List.append_cons] at ordered ⊢
    exact ih (reflects_take reflects (Step.ordered_append.mp ordered).1 (errors_of_foldl clean))
      ordered clean

end Survey

/-- The table of a walk without duplicate names reflects the walk. -/
theorem reflects_survey {body : List Stmt} (clean : (survey (Walk.program body)).errors = #[]) :
    (survey (Walk.program body)).symbols.Reflects (Walk.program body) :=
  have ordered : Step.Ordered 1 ([] ++ Walk.program body) := Walk.ordered_program body
  Survey.reflects_foldl SymbolTable.reflects_initial ordered clean

end BoxScript
