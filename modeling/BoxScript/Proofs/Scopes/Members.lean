import BoxScript.Proofs.Scopes.Visibility
import BoxScript.Proofs.Walking.Lookup

/-!
# Declarations by name and in order

A scope keeps its declarations twice: under their names, to find them, and in a list, in the order
in which they are made. Both keep the same declarations (`SymbolTable.Filed`), so the members of a
struct or box that are listed are those that are found by name (`SymbolTable.Filed.members_named`).

This is so in each table that calls build up (`SymbolTable.filed_of_runs`). A name that is declared
a second time is refused and changes nothing, and a declaration keeps its number for good.
-/

set_option autoImplicit false

namespace BoxScript

namespace SymbolTable

variable {table later : SymbolTable} {scope : ScopeId} {found : Scope} {name : String}
  {id : DeclId} {decl : Declaration}

/-! ## Order -/

/-- A table whose scopes list what their names declare, each declaration after those that were made
before it. -/
structure Listed (table : SymbolTable) : Prop where
  order : ∀ {scope : ScopeId} {found : Scope}, table.scopes[scope]? = some found →
    found.order = found.names.map Prod.snd
  increasing : ∀ {scope : ScopeId} {found : Scope}, table.scopes[scope]? = some found →
    found.order.Pairwise (· < ·)

theorem Listed.pushScope (listed : table.Listed) (kind : ScopeKind) (parent : Option ScopeId) :
    (table.pushScope kind parent).2.Listed where
  order present := by
    rcases getElem?_push_cases present with old | ⟨rfl, rfl⟩
    · exact listed.order old
    · rfl
  increasing present := by
    rcases getElem?_push_cases present with old | ⟨rfl, rfl⟩
    · exact listed.increasing old
    · exact .nil

theorem Listed.mem_order_iff (listed : table.Listed) (sound : table.Sound)
    (present : table.scopes[scope]? = some found) :
    id ∈ found.order ↔ ∃ name decl, table.Declares scope name id decl := by
  simp only [listed.order present, List.mem_map, Prod.exists, exists_eq_right,
    sound.names present]

theorem Listed.extend (listed : table.Listed) (sound : table.Sound) (decl : Declaration) :
    (table.extend decl).Listed where
  order present := by
    rcases getElem?_extend present with ⟨_, old⟩ | ⟨before, _, old, rfl⟩
    · exact listed.order old
    · rw [listed.order old, List.map_append, List.map_singleton]
  increasing present := by
    rcases getElem?_extend present with ⟨_, old⟩ | ⟨before, _, old, rfl⟩
    · exact listed.increasing old
    · refine List.pairwise_append.mpr
        ⟨listed.increasing old, List.pairwise_singleton _ _, fun id member new isNew => ?_⟩
      cases List.mem_singleton.mp isNew
      obtain ⟨_, _, declares⟩ := (listed.mem_order_iff sound old).mp member
      exact (Array.getElem?_eq_some_iff.mp declares.present).1

/-- No call puts a declaration out of order. -/
theorem Listed.after (listed : table.Listed) (sound : table.Sound) (call : Call) :
    (table.after call).Listed := by
  cases call with
  | pushScope kind parent => exact listed.pushScope kind parent
  | declare scope name kind node visibleFrom span =>
    rcases @after_declare table scope name kind node visibleFrom span with ⟨_, same⟩ | ⟨_, same⟩
    · rw [same]
      exact listed
    · rw [same]
      exact listed.extend sound _
  | setMembers owner scope => exact ⟨listed.order, listed.increasing⟩

theorem listed_initial : initial.Listed where
  order := reflects_initial.ordered
  increasing {scope found} present := by
    rw [initial_eq] at present
    rcases scope with _ | scope
    · cases present
      decide
    · simp at present

theorem Listed.runs (listed : table.Listed) (sound : table.Sound) {calls : List Call}
    (runs : table.Runs calls later) : later.Listed := by
  induction runs with
  | nil => exact listed
  | cons fits _ ih => exact ih (listed.after sound _) (sound.after fits)

/-! ## Names and order -/

/-- A table that files its declarations: what a scope has by name is what it has in order, each
declaration under its own name and in its own scope, and in no other one. -/
structure Filed (table : SymbolTable) : Prop where
  increasing : ∀ {scope : ScopeId} {found : Scope}, table.scopes[scope]? = some found →
    found.order.Pairwise (· < ·)
  named : ∀ {scope : ScopeId} {found : Scope} {id : DeclId}, table.scopes[scope]? = some found →
    (id ∈ found.order ↔ ∃ name, table.declaredIn? scope name = some id)
  declares : ∀ {scope : ScopeId} {name : String} {id : DeclId},
    table.declaredIn? scope name = some id ↔ ∃ decl, table.Declares scope name id decl
  home : ∀ {id : DeclId} {decl : Declaration}, table.decls[id]? = some decl →
    ∃! scope : ScopeId, ∃ found : Scope, table.scopes[scope]? = some found ∧ id ∈ found.order

theorem Listed.filed (listed : table.Listed) (sound : table.Sound) : table.Filed where
  increasing := listed.increasing
  named present := by
    simp only [listed.mem_order_iff sound present, sound.declaredIn?_eq_some_iff]
  declares := sound.declaredIn?_eq_some_iff
  home {id decl} present := by
    have declares : table.Declares decl.scope decl.name id decl := ⟨present, rfl, rfl⟩
    have inside := Array.getElem?_eq_getElem (sound.homes present)
    refine ⟨decl.scope, ⟨_, inside, (listed.mem_order_iff sound inside).mpr ⟨_, _, declares⟩⟩, ?_⟩
    rintro other ⟨found, there, member⟩
    obtain ⟨name, also, declaresToo⟩ := (listed.mem_order_iff sound there).mp member
    cases present.symm.trans declaresToo.present
    exact declaresToo.home.symm

/-! ## Members -/

/-- The members of a struct or box are all declarations of its member scope, in their order. -/
theorem Filed.members_in_order (filed : table.Filed) {owner : NodeId}
    (owns : table.memberScopes.lookup owner = some scope)
    (present : table.scopes[scope]? = some found) :
    List.Forall₂ (fun id decl => table.Declares scope decl.name id decl) found.order
      (table.members owner) := by
  have all : ∀ id ∈ found.order, ∃ decl, table.Declares scope decl.name id decl := by
    intro id member
    obtain ⟨name, declared⟩ := (filed.named present).mp member
    obtain ⟨decl, declares⟩ := filed.declares.mp declared
    exact ⟨decl, declares.present, rfl, declares.home⟩
  simp only [members, owns, Option.bind_some, present]
  generalize found.order = order at all
  induction order with
  | nil => exact .nil
  | cons id rest ih =>
    obtain ⟨⟨decl, declares⟩, others⟩ := List.forall_mem_cons.mp all
    rw [List.filterMap_cons, declares.present]
    exact .cons declares (ih others)

/-- A number of a scope stands in its order once. -/
theorem Filed.filter_order (filed : table.Filed) (present : table.scopes[scope]? = some found)
    (declared : table.declaredIn? scope name = some id) :
    found.order.filter (· = id) = [id] := by
  have distinct : found.order.Nodup := (filed.increasing present).imp Nat.ne_of_lt
  have member := (filed.named present).mpr ⟨name, declared⟩
  rw [List.filter_eq, List.count_eq_one_of_mem distinct member, List.replicate_one]

/-- The member that is found by a name is the one that is listed under it. -/
theorem Filed.members_named (filed : table.Filed) (owner : NodeId) (name : String) :
    match table.lookupMember? owner name with
    | none => (table.members owner).filter (·.name = name) = []
    | some id => ∃ decl, table.decls[id]? = some decl ∧
        (table.members owner).filter (·.name = name) = [decl] := by
  cases owns : table.memberScopes.lookup owner with
  | none => simp only [lookupMember?, members, owns, Option.bind_none, List.filter_nil]
  | some scope =>
    cases present : table.scopes[scope]? with
    | none =>
      simp only [lookupMember?, members, declaredIn?, owns, Option.bind_some, present,
        Option.bind_none, List.filter_nil]
    | some found =>
      have inOrder := filed.members_in_order owns present
      simp only [lookupMember?, owns, Option.bind_some]
      cases declared : table.declaredIn? scope name with
      | none =>
        refine List.filter_eq_nil_iff.mpr fun decl member same => ?_
        obtain ⟨id, _, declares⟩ := exists_of_forall₂_right inOrder member
        rw [of_decide_eq_true same] at declares
        rw [filed.declares.mpr ⟨decl, declares⟩] at declared
        cases declared
      | some id =>
        obtain ⟨decl, declares⟩ := filed.declares.mp declared
        -- The name picks a member where the number picks a declaration of the scope.
        have picks : ∀ ⦃other : DeclId⦄ ⦃member : Declaration⦄,
            table.Declares scope member.name other member → (other = id ↔ member.name = name) := by
          intro other member there
          constructor
          · rintro rfl
            cases declares.present.symm.trans there.present
            exact declares.named
          · intro same
            have again := filed.declares.mpr ⟨member, there⟩
            rw [same, declared] at again
            exact (Option.some.inj again).symm
        have filtered : List.Forall₂ (fun id decl => table.Declares scope decl.name id decl)
            (found.order.filter (· = id)) ((table.members owner).filter (·.name = name)) :=
          List.rel_filter (fun _ _ there => by simpa using picks there) inOrder
        rw [filed.filter_order present declared] at filtered
        obtain ⟨member, others, there, nothing, same⟩ := List.forall₂_cons_left_iff.mp filtered
        rw [List.forall₂_nil_left_iff.mp nothing] at same
        exact ⟨member, there.present, same⟩

/-! ## Calls -/

/-- A name is refused exactly if its scope has it already. Otherwise it gets the next number. -/
theorem Sound.declare_spec (sound : table.Sound) (fits : scope < table.scopes.size) (name : String)
    (kind : DeclKind) (node : Option NodeId) (visibleFrom : Nat) (span : Span) :
    match table.declare scope name kind node visibleFrom span with
    | .error cause => cause = .duplicate name ∧ (∃ id, table.declaredIn? scope name = some id) ∧
        table.after (.declare scope name kind node visibleFrom span) = table
    | .ok (id, later) => id = table.decls.size ∧ table.declaredIn? scope name = none ∧
        table.after (.declare scope name kind node visibleFrom span) = later ∧
        later.declaredIn? scope name = some id ∧
        later.Declares scope name id ⟨name, kind, node, scope, visibleFrom, span⟩ := by
  rcases @after_declare table scope name kind node visibleFrom span with
    ⟨taken, same⟩ | ⟨vacant, same⟩
  · rw [declare, if_pos taken]
    exact ⟨rfl, Option.isSome_iff_exists.mp taken, same⟩
  · rw [declare, if_neg (by simp [vacant])]
    have declares : (table.extend ⟨name, kind, node, scope, visibleFrom, span⟩).Declares scope name
        table.decls.size ⟨name, kind, node, scope, visibleFrom, span⟩ :=
      declares_extend.mpr (.inr ⟨rfl, rfl, rfl, rfl⟩)
    exact ⟨rfl, vacant, same,
      (sound.extend fits vacant).declaredIn?_eq_some_iff.mpr ⟨_, declares⟩, declares⟩

/-- A number means the same declaration for good. -/
theorem decls_runs {calls : List Call} (runs : table.Runs calls later)
    (present : table.decls[id]? = some decl) : later.decls[id]? = some decl := by
  induction runs with
  | nil => exact present
  | cons _ _ ih => exact ih (decls_after present)

/-- In a table that calls have built up, each scope has the same declarations by name and in order:
those that are made in it, in the order of their numbers, each under its own name. A name is refused
exactly if its scope has it already, which changes nothing, and whatever is called later, a number
means the same declaration. The members of a struct or box are the declarations of its member scope
in their order, and the one that is found by a name is the only one listed under it. -/
theorem filed_of_runs {calls : List Call} (runs : initial.Runs calls table) :
    table.Filed ∧
    (∀ scope < table.scopes.size, ∀ name kind node visibleFrom span,
      match table.declare scope name kind node visibleFrom span with
      | .error cause => cause = .duplicate name ∧ (∃ id, table.declaredIn? scope name = some id) ∧
          table.after (.declare scope name kind node visibleFrom span) = table
      | .ok (id, later) => id = table.decls.size ∧ table.declaredIn? scope name = none ∧
          table.after (.declare scope name kind node visibleFrom span) = later ∧
          later.declaredIn? scope name = some id ∧
          later.Declares scope name id ⟨name, kind, node, scope, visibleFrom, span⟩) ∧
    (∀ (more : List Call) (later : SymbolTable), table.Runs more later →
      ∀ (id : DeclId) (decl : Declaration), table.decls[id]? = some decl →
        later.decls[id]? = some decl) ∧
    (∀ (owner : NodeId) (scope : ScopeId) (found : Scope),
      table.memberScopes.lookup owner = some scope → table.scopes[scope]? = some found →
        List.Forall₂ (fun id decl => table.Declares scope decl.name id decl) found.order
          (table.members owner)) ∧
    ∀ owner name,
      match table.lookupMember? owner name with
      | none => (table.members owner).filter (·.name = name) = []
      | some id => ∃ decl, table.decls[id]? = some decl ∧
          (table.members owner).filter (·.name = name) = [decl] := by
  have sound := sound_initial.runs runs
  have filed := (listed_initial.runs sound_initial runs).filed sound
  exact ⟨filed, fun _ fits => sound.declare_spec fits, fun _ _ more _ _ => decls_runs more,
    fun _ _ _ => filed.members_in_order, filed.members_named⟩

/-- The fields of a struct, one of which is declared a second time. -/
theorem filed_struct_fields :
    let calls : List Call := [.pushScope .root (some builtinScope),
      .declare 1 "P" .struct (some 5) 0 (.within "main.sigh" 0 40), .pushScope .struct (some 1),
      .declare 2 "y" .field (some 6) 0 (.within "main.sigh" 11 17),
      .declare 2 "x" .field (some 7) 0 (.within "main.sigh" 19 25),
      .declare 2 "y" .field (some 8) 0 (.within "main.sigh" 27 36), .setMembers 5 2]
    let table := calls.foldl after initial
    initial.Runs calls table ∧ table.Filed ∧ (table.scopes[2]?.map (·.order)) = some [8, 9] ∧
    2 < table.scopes.size ∧ (∃ id, table.declaredIn? 2 "y" = some id) ∧
    table.after (.declare 2 "y" .field (some 8) 0 (.within "main.sigh" 27 36)) = table ∧
    (table.members 5).map (·.name) = ["y", "x"] ∧
    ∃ decl, table.decls[9]? = some decl ∧ (table.members 5).filter (·.name = "x") = [decl] := by
  intro calls table
  have runs : initial.Runs calls table := .cons (by decide) (.cons (by decide) (.cons (by decide)
    (.cons (by decide) (.cons (by decide) (.cons (by decide) (.cons trivial .nil))))))
  have fits : 2 < table.scopes.size := by decide
  obtain ⟨filed, declares, _, _, named⟩ := filed_of_runs runs
  obtain ⟨_, taken, same⟩ := declares 2 fits "y" .field (some 8) 0 (.within "main.sigh" 27 36)
  exact ⟨runs, filed, rfl, fits, taken, same, rfl, named 5 "x"⟩

end SymbolTable

end BoxScript
