import BoxScript.Proofs.Walking.Table

/-!
# Tables that calls build up

A symbol table is built up from the initial one by calls that open scopes, declare names and set
member scopes (`SymbolTable.Runs`). Whatever the calls, the table stays sound
(`SymbolTable.Runs.sound`): a scope lies inside an older one, and the names of a scope are those of
the declarations that belong to it, each under the number of its declaration and no name twice.

A call changes nothing of what is there already, but that it may add a name to a scope.
-/

set_option autoImplicit false

namespace BoxScript

namespace SymbolTable

/-! ## Calls -/

/-- A call that adds to a table. -/
inductive Call
  | pushScope (kind : ScopeKind) (parent : Option ScopeId)
  | declare (scope : ScopeId) (name : String) (kind : DeclKind) (node : Option NodeId)
      (visibleFrom : Nat) (span : Span)
  | setMembers (owner : NodeId) (scope : ScopeId)

/-- The table after a call. A name that is refused leaves the table as it is. -/
def after (table : SymbolTable) : Call → SymbolTable
  | .pushScope kind parent => (table.pushScope kind parent).2
  | .declare scope name kind node visibleFrom span =>
    match table.declare scope name kind node visibleFrom span with
    | .ok (_, later) => later
    | .error _ => table
  | .setMembers owner scope => table.setMembers owner scope

/-- Whether there are the scopes that a call opens a scope in or declares a name in. -/
def Call.Fits (table : SymbolTable) : Call → Prop
  | .pushScope _ parent => ∀ scope ∈ parent, scope < table.scopes.size
  | .declare scope _ _ _ _ _ => scope < table.scopes.size
  | .setMembers _ _ => True

instance (table : SymbolTable) : (call : Call) → Decidable (call.Fits table)
  | .pushScope _ parent =>
    inferInstanceAs (Decidable (∀ scope ∈ parent, scope < table.scopes.size))
  | .declare scope _ _ _ _ _ => inferInstanceAs (Decidable (scope < table.scopes.size))
  | .setMembers _ _ => .isTrue trivial

/-- Calls that lead from one table to another. -/
inductive Runs : SymbolTable → List Call → SymbolTable → Prop
  | nil {table : SymbolTable} : Runs table [] table
  | cons {table later : SymbolTable} {call : Call} {calls : List Call} (fits : call.Fits table)
      (others : Runs (table.after call) calls later) : Runs table (call :: calls) later

variable {table later : SymbolTable} {scope : ScopeId} {name : String} {id : DeclId}
  {decl : Declaration}

theorem declaredIn?_eq {found : Scope} (present : table.scopes[scope]? = some found) :
    table.declaredIn? scope name = found.names.lookup name := by
  rw [declaredIn?, present, Option.bind_some]

/-- A name is declared unless its scope has it already. -/
theorem after_declare {kind : DeclKind} {node : Option NodeId} {visibleFrom : Nat} {span : Span} :
    ((table.declaredIn? scope name).isSome = true ∧
      table.after (.declare scope name kind node visibleFrom span) = table) ∨
    (table.declaredIn? scope name = none ∧
      table.after (.declare scope name kind node visibleFrom span) =
        table.extend ⟨name, kind, node, scope, visibleFrom, span⟩) := by
  by_cases taken : (table.declaredIn? scope name).isSome = true
  · exact .inl ⟨taken, by simp only [after, declare, if_pos taken]⟩
  · exact .inr ⟨by simpa using taken, by simp only [after, declare, if_neg taken]; rfl⟩

/-! ## What a call leaves as it is -/

theorem size_le_after {call : Call} : table.scopes.size ≤ (table.after call).scopes.size := by
  cases call with
  | pushScope kind parent =>
    rw [after, pushScope, Array.size_push]
    exact Nat.le_succ _
  | declare scope name kind node visibleFrom span =>
    rcases @after_declare table scope name kind node visibleFrom span with ⟨_, same⟩ | ⟨_, same⟩
    · exact Nat.le_of_eq (by rw [same])
    · exact Nat.le_of_eq (by rw [same, extend, Array.size_modify])
  | setMembers owner scope => exact Nat.le_refl _

/-- A declaration stays what it is. -/
theorem decls_after {call : Call} (present : table.decls[id]? = some decl) :
    (table.after call).decls[id]? = some decl := by
  cases call with
  | pushScope kind parent => exact present
  | declare scope name kind node visibleFrom span =>
    rcases @after_declare table scope name kind node visibleFrom span with ⟨_, same⟩ | ⟨_, same⟩
    · rw [same]
      exact present
    · rw [same]
      exact getElem?_push_of_eq_some _ present
  | setMembers owner scope => exact present

/-- A scope stays in its place, and has a new name at most if the call declares it there. -/
theorem scope_after {call : Call} {found : Scope} (present : table.scopes[scope]? = some found) :
    ∃ names order,
      (table.after call).scopes[scope]? = some { found with names := names, order := order } ∧
      ∀ name, (∀ kind node visibleFrom span,
          call ≠ .declare scope name kind node visibleFrom span) →
        names.lookup name = found.names.lookup name := by
  cases call with
  | pushScope kind parent =>
    exact ⟨found.names, found.order, getElem?_push_of_eq_some _ present, fun _ _ => rfl⟩
  | declare home name kind node visibleFrom span =>
    rcases @after_declare table home name kind node visibleFrom span with ⟨_, same⟩ | ⟨_, same⟩
    · rw [same]
      exact ⟨found.names, found.order, present, fun _ _ => rfl⟩
    · rw [same]
      simp only [extend, Array.getElem?_modify]
      split
      · rename_i here
        subst here
        refine ⟨found.names ++ [(name, table.decls.size)], found.order ++ [table.decls.size],
          by rw [present]; rfl, ?_⟩
        intro other unlike
        have apart : (other == name) = false := by
          rw [beq_eq_false_iff_ne]
          rintro rfl
          exact unlike kind node visibleFrom span rfl
        rw [List.lookup_append, List.lookup_cons, apart, List.lookup_nil, Option.or_none]
      · exact ⟨found.names, found.order, present, fun _ _ => rfl⟩
  | setMembers owner home => exact ⟨found.names, found.order, present, fun _ _ => rfl⟩

/-! ## Soundness -/

/-- A declaration of a name in a scope, and its number. -/
structure Declares (table : SymbolTable) (scope : ScopeId) (name : String) (id : DeclId)
    (decl : Declaration) : Prop where
  present : table.decls[id]? = some decl
  named : decl.name = name
  home : decl.scope = scope

theorem declares_congr (same : later.decls = table.decls) :
    later.Declares scope name id decl ↔ table.Declares scope name id decl :=
  ⟨fun declares => ⟨same ▸ declares.present, declares.named, declares.home⟩,
    fun declares => ⟨same ▸ declares.present, declares.named, declares.home⟩⟩

/-- What is declared after one more declaration. -/
theorem declares_extend {new : Declaration} : (table.extend new).Declares scope name id decl ↔
    table.Declares scope name id decl ∨
      (id = table.decls.size ∧ decl = new ∧ new.name = name ∧ new.scope = scope) := by
  constructor
  · rintro ⟨present, named, home⟩
    rcases getElem?_push_cases present with old | ⟨rfl, rfl⟩
    · exact .inl ⟨old, named, home⟩
    · exact .inr ⟨rfl, rfl, named, home⟩
  · rintro (⟨present, named, home⟩ | ⟨rfl, rfl, named, home⟩)
    · exact ⟨getElem?_push_of_eq_some new present, named, home⟩
    · exact ⟨Array.getElem?_push_size, named, home⟩

/-- A table whose scopes lie inside older ones and have the names that are declared in them. -/
structure Sound (table : SymbolTable) : Prop where
  older : ∀ {scope parent : ScopeId} {found : Scope}, table.scopes[scope]? = some found →
    found.parent = some parent → parent < scope
  names : ∀ {scope : ScopeId} {found : Scope} {name : String} {id : DeclId},
    table.scopes[scope]? = some found →
      ((name, id) ∈ found.names ↔ ∃ decl, table.Declares scope name id decl)
  distinct : ∀ {scope : ScopeId} {found : Scope}, table.scopes[scope]? = some found →
    (found.names.map Prod.fst).Nodup
  homes : ∀ {id : DeclId} {decl : Declaration}, table.decls[id]? = some decl →
    decl.scope < table.scopes.size

theorem sound_empty : empty.Sound where
  older present := by cases present
  names present := by cases present
  distinct present := by cases present
  homes present := by cases present

theorem Sound.pushScope (sound : table.Sound) (kind : ScopeKind) {parent : Option ScopeId}
    (around : ∀ scope ∈ parent, scope < table.scopes.size) :
    (table.pushScope kind parent).2.Sound where
  older present inside := by
    rcases getElem?_push_cases present with old | ⟨rfl, rfl⟩
    · exact sound.older old inside
    · exact around _ inside
  names {scope found name id} present := by
    rcases getElem?_push_cases present with old | ⟨rfl, rfl⟩
    · have same : (table.pushScope kind parent).2.decls = table.decls := rfl
      simp only [sound.names old, declares_congr same]
    · -- Nothing is declared yet in the scope that is opened.
      refine iff_of_false (List.not_mem_nil) ?_
      rintro ⟨decl, present, _, home⟩
      exact absurd (sound.homes present) (home ▸ Nat.lt_irrefl _)
  distinct present := by
    rcases getElem?_push_cases present with old | ⟨rfl, rfl⟩
    · exact sound.distinct old
    · exact List.nodup_nil
  homes present := by
    rw [SymbolTable.pushScope, Array.size_push]
    exact Nat.lt_succ_of_lt (sound.homes present)

theorem Sound.extend (sound : table.Sound) (fits : decl.scope < table.scopes.size)
    (vacant : table.declaredIn? decl.scope decl.name = none) : (table.extend decl).Sound where
  older present inside := by
    rcases getElem?_extend present with ⟨_, old⟩ | ⟨found, _, old, rfl⟩
    · exact sound.older old inside
    · exact sound.older old inside
  names {scope found name id} present := by
    simp only [declares_extend, exists_or]
    rcases getElem?_extend present with ⟨apart, old⟩ | ⟨before, rfl, old, rfl⟩
    · rw [sound.names old, or_iff_left]
      rintro ⟨_, _, _, _, home⟩
      exact apart home.symm
    · rw [List.mem_append, sound.names old, List.mem_singleton, Prod.mk.injEq]
      refine or_congr_right ⟨fun ⟨same, is⟩ => ⟨decl, is, rfl, same.symm, rfl⟩, ?_⟩
      rintro ⟨_, is, rfl, same, _⟩
      exact ⟨same.symm, is⟩
  distinct present := by
    rcases getElem?_extend present with ⟨_, old⟩ | ⟨before, rfl, old, rfl⟩
    · exact sound.distinct old
    · have absent := notMem_of_declaredIn?_eq_none old vacant
      rw [List.map_append, List.nodup_append]
      refine ⟨sound.distinct old, by simp, ?_⟩
      rintro _ member _ last rfl
      cases List.mem_singleton.mp last
      exact absent member
  homes present := by
    rw [SymbolTable.extend, Array.size_modify]
    rcases getElem?_push_cases present with old | ⟨rfl, rfl⟩
    · exact sound.homes old
    · exact fits

/-- No call makes a sound table unsound. -/
theorem Sound.after (sound : table.Sound) {call : Call} (fits : call.Fits table) :
    (table.after call).Sound := by
  cases call with
  | pushScope kind parent => exact sound.pushScope kind fits
  | declare scope name kind node visibleFrom span =>
    rcases @after_declare table scope name kind node visibleFrom span with
      ⟨_, same⟩ | ⟨vacant, same⟩
    · rw [same]
      exact sound
    · rw [same]
      exact sound.extend fits vacant
  | setMembers owner scope =>
    have same : (table.after (.setMembers owner scope)).decls = table.decls := rfl
    refine ⟨sound.older, fun present => ?_, sound.distinct, sound.homes⟩
    exact (sound.names present).trans (exists_congr fun _ => (declares_congr same).symm)

theorem sound_declareBuiltins (sound : table.Sound) (inhabited : 0 < table.scopes.size)
    (entries : List (String × DeclKind)) : (table.declareBuiltins entries).Sound := by
  induction entries generalizing table with
  | nil => exact sound
  | cons entry rest ih =>
    obtain ⟨name, kind⟩ := entry
    have goes : table.declareBuiltins ((name, kind) :: rest) =
        (table.after (.declare builtinScope name kind none 0 .none)).declareBuiltins rest := by
      rw [declareBuiltins, SymbolTable.after]
      cases table.declare builtinScope name kind none 0 .none <;> rfl
    rw [goes]
    exact ih (sound.after inhabited) (Nat.lt_of_lt_of_le inhabited size_le_after)

theorem sound_initial : initial.Sound := by
  refine sound_declareBuiltins (sound_empty.pushScope .builtin ?_) Nat.zero_lt_one builtins
  exact fun _ none => nomatch none

/-- Calls build up sound tables. -/
theorem Sound.runs (sound : table.Sound) {calls : List Call} (runs : table.Runs calls later) :
    later.Sound := by
  induction runs with
  | nil => exact sound
  | cons fits _ ih => exact ih (sound.after fits)

end SymbolTable

end BoxScript
