import BoxScript.Proofs.Rules.Discipline
import BoxScript.Proofs.Walking.Table
import BoxScript.Proofs.Walking.Uses

/-!
# Names in the table of a walk

What a name is found to mean in a table that reflects a walk: a declaration that one of the scopes
around it holds. Names are distinct in each scope, and nodes in the whole table
(`Reflects.eq_of_name`, `Reflects.eq_of_node`). A scope lies inside an older one, so the chain of
the scopes around it ends at the builtin scope (`Reflects.chain_openScope`).
-/

set_option autoImplicit false

namespace BoxScript

namespace Step

variable {steps : List Step} {scope : ScopeId} {decl : Declaration}

theorem mem_declared : decl ∈ declared scope steps ↔
    ∃ name kind mark position, .declare scope name kind mark position ∈ steps ∧
      decl = ⟨name, kind, some mark.id, scope, position, mark.span⟩ := by
  simp only [declared, List.mem_filterMap]
  constructor
  · rintro ⟨step, member, declares⟩
    unfold declaredBy at declares
    split at declares
    · split at declares
      · rename_i home name kind mark position same
        cases declares
        subst same
        exact ⟨name, kind, mark, position, member, rfl⟩
      · cases declares
    · cases declares
  · rintro ⟨name, kind, mark, position, member, rfl⟩
    exact ⟨_, member, by simp [declaredBy]⟩

theorem scope_of_mem_contents (member : decl ∈ contents scope steps) : decl.scope = scope := by
  rcases List.mem_append.mp member with builtin | declares
  · split at builtin
    · obtain ⟨_, _, rfl⟩ := List.mem_map.mp builtin
      exact (‹scope = _›).symm
    · cases builtin
  · obtain ⟨_, _, _, _, _, rfl⟩ := mem_declared.mp declares
    rfl

/-- Where a declaration comes from: it is that of a builtin, or a step declares it. -/
theorem mem_contents_cases (member : decl ∈ contents scope steps) :
    (scope = SymbolTable.builtinScope ∧ decl ∈ SymbolTable.builtinDeclarations) ∨
      decl ∈ declared scope steps := by
  rcases List.mem_append.mp member with builtin | declares
  · split at builtin
    · exact .inl ⟨‹_›, builtin⟩
    · cases builtin
  · exact .inr declares

theorem isSome_node_of_mem_declared (member : decl ∈ declared scope steps) :
    decl.node.isSome = true := by
  obtain ⟨_, _, _, _, _, rfl⟩ := mem_declared.mp member
  rfl

theorem Ordered.of_mem {next : ScopeId} (ordered : Ordered next steps) {step : Step}
    (member : step ∈ steps) : ∃ later, next ≤ later ∧ Ordered later [step] := by
  obtain ⟨before, after, rfl⟩ := List.append_of_mem member
  rw [List.append_cons] at ordered
  exact ⟨next + opened before, Nat.le_add_right _ _,
    (ordered_append.mp (ordered_append.mp ordered).1).2⟩

theorem Ordered.of_openScope {next : ScopeId} (ordered : Ordered next steps) {kind : ScopeKind}
    {parent : ScopeId} (member : .openScope scope kind parent ∈ steps) :
    parent < scope ∧ next ≤ scope := by
  obtain ⟨later, bound, rfl, inside, _⟩ := ordered.of_mem member
  exact ⟨inside, bound⟩

theorem Ordered.of_setMembers {next : ScopeId} (ordered : Ordered next steps) {owner : NodeId}
    (member : .setMembers owner scope ∈ steps) : 0 < scope := by
  obtain ⟨later, _, positive, _⟩ := ordered.of_mem member
  exact positive

end Step

theorem exists_of_forall₂_left {α β : Type} {R : α → β → Prop} {as : List α} {bs : List β}
    (all : List.Forall₂ R as bs) {a : α} (member : a ∈ as) : ∃ b ∈ bs, R a b := by
  induction all with
  | nil => cases member
  | cons first _ ih =>
    rcases List.mem_cons.mp member with rfl | member
    · exact ⟨_, List.mem_cons_self, first⟩
    · obtain ⟨b, found, related⟩ := ih member
      exact ⟨b, List.mem_cons_of_mem _ found, related⟩

theorem exists_of_forall₂_right {α β : Type} {R : α → β → Prop} {as : List α} {bs : List β}
    (all : List.Forall₂ R as bs) {b : β} (member : b ∈ bs) : ∃ a ∈ as, R a b := by
  obtain ⟨a, found, related⟩ := exists_of_forall₂_left all.flip member
  exact ⟨a, found, related⟩

namespace SymbolTable

namespace Reflects

variable {symbols : SymbolTable} {steps : List Step} {scope : ScopeId} {name : String} {id : DeclId}
  {decl other : Declaration}

/-! ## Names in a scope -/

/-- A name that a scope has means one of the declarations that the scope holds. -/
theorem declaredIn (reflects : symbols.Reflects steps)
    (found : symbols.declaredIn? scope name = some id) :
    ∃ decl ∈ Step.contents scope steps, symbols.decls[id]? = some decl ∧ decl.name = name := by
  obtain ⟨home, present, looked⟩ := Option.bind_eq_some_iff.mp found
  obtain ⟨before, after, split, _⟩ := List.lookup_eq_some_iff.mp looked
  have member : (name, id) ∈ home.names := by simp [split]
  obtain ⟨decl, holds, same, means⟩ := exists_of_forall₂_left (reflects.names present) member
  exact ⟨decl, holds, means, same.symm⟩

theorem names_eq {found : Scope} (reflects : symbols.Reflects steps)
    (present : symbols.scopes[scope]? = some found) :
    found.names.map Prod.fst = (Step.contents scope steps).map Declaration.name := by
  have named : ∀ {entries : List (String × DeclId)} {decls : List Declaration},
      List.Forall₂ symbols.Means entries decls →
      entries.map Prod.fst = decls.map Declaration.name := by
    intro entries decls all
    induction all with
    | nil => rfl
    | cons first _ ih => rw [List.map_cons, List.map_cons, ih, first.1]
  exact named (reflects.names present)

/-- The declarations of a scope have distinct names. -/
theorem eq_of_name (reflects : symbols.Reflects steps) {found : Scope}
    (present : symbols.scopes[scope]? = some found)
    (here : decl ∈ Step.contents scope steps) (there : other ∈ Step.contents scope steps)
    (same : decl.name = other.name) : decl = other := by
  have distinct := reflects.distinct present
  rw [reflects.names_eq present] at distinct
  exact List.inj_on_of_nodup_map distinct here there same

/-- A name that a scope holds is found in it. -/
theorem declaredIn_of_mem (reflects : symbols.Reflects steps) {found : Scope}
    (present : symbols.scopes[scope]? = some found) (holds : decl ∈ Step.contents scope steps) :
    ∃ id, symbols.declaredIn? scope decl.name = some id ∧ symbols.decls[id]? = some decl := by
  obtain ⟨entry, member, same, _⟩ := exists_of_forall₂_right (reflects.names present) holds
  obtain ⟨id, looked⟩ : ∃ id, found.names.lookup decl.name = some id := by
    cases looked : found.names.lookup decl.name with
    | some id => exact ⟨id, rfl⟩
    | none => simpa [← same] using List.lookup_eq_none_iff.mp looked entry member
  have declares : symbols.declaredIn? scope decl.name = some id := by
    rw [declaredIn?, present]
    exact looked
  obtain ⟨meant, holdsToo, means, sameName⟩ := reflects.declaredIn declares
  exact ⟨id, declares, reflects.eq_of_name present holdsToo holds sameName ▸ means⟩

/-- The declarations of a table come from nodes of their own. -/
theorem eq_of_node (distinct : Step.Distinct steps) {home : ScopeId}
    (here : decl ∈ Step.contents scope steps) (there : other ∈ Step.contents home steps)
    (declares : decl.node.isSome = true) (same : decl.node = other.node) : decl = other := by
  rcases Step.mem_contents_cases here with ⟨_, builtin⟩ | left
  · obtain ⟨_, _, rfl⟩ := List.mem_map.mp builtin
    cases declares
  · rcases Step.mem_contents_cases there with ⟨_, builtin⟩ | right
    · obtain ⟨_, _, rfl⟩ := List.mem_map.mp builtin
      rw [same] at declares
      cases declares
    · obtain ⟨_, _, mark, _, leftStep, rfl⟩ := Step.mem_declared.mp left
      obtain ⟨_, _, other, _, rightStep, rfl⟩ := Step.mem_declared.mp right
      have sameMark : mark.id = other.id := Option.some.inj same
      have equal := distinct.eq_of_use leftStep rightStep
        (List.mem_append_right _ List.mem_cons_self)
        (List.mem_append_right _ (by rw [sameMark]; exact List.mem_cons_self))
      cases equal
      rfl

/-! ## Members -/

theorem lookup_memberScopes (reflects : symbols.Reflects steps) {owner : NodeId}
    (found : symbols.memberScopes.lookup owner = some scope) : .setMembers owner scope ∈ steps := by
  obtain ⟨before, after, split, _⟩ := List.lookup_eq_some_iff.mp found
  have member : (owner, scope) ∈ symbols.memberScopes := by simp [split]
  rw [reflects.members, List.mem_reverse, List.mem_filterMap] at member
  obtain ⟨step, present, names⟩ := member
  cases step with
  | setMembers home inner =>
    cases names
    exact present
  | _ => cases names

/-- Each struct or box has one member scope. -/
theorem memberScope_eq (distinct : Step.Distinct steps) {owner : NodeId} {home : ScopeId}
    (here : .setMembers owner scope ∈ steps) (there : .setMembers owner home ∈ steps) :
    scope = home := by
  have equal := distinct.eq_of_use here there (List.mem_append_right _ List.mem_cons_self)
    (List.mem_append_right _ List.mem_cons_self)
  cases equal
  rfl

theorem lookup_memberScopes_of_mem (reflects : symbols.Reflects steps)
    (distinct : Step.Distinct steps) {owner : NodeId} (member : .setMembers owner scope ∈ steps) :
    symbols.memberScopes.lookup owner = some scope := by
  have present : (owner, scope) ∈ symbols.memberScopes := by
    rw [reflects.members, List.mem_reverse, List.mem_filterMap]
    exact ⟨_, member, rfl⟩
  cases looked : symbols.memberScopes.lookup owner with
  | some home => rw [memberScope_eq distinct (reflects.lookup_memberScopes looked) member]
  | none => simpa using List.lookup_eq_none_iff.mp looked _ present

/-- What a member scope holds are the members. -/
theorem members_eq (reflects : symbols.Reflects steps) (distinct : Step.Distinct steps)
    {next : ScopeId} (ordered : Step.Ordered next steps) {owner : NodeId} {kind : ScopeKind}
    {around : ScopeId} (opened : .openScope scope kind around ∈ steps)
    (member : .setMembers owner scope ∈ steps) :
    symbols.members owner = Step.declared scope steps := by
  obtain ⟨names, order, present⟩ := reflects.opened opened
  have inside := (ordered.of_openScope opened).1
  have contents : Step.contents scope steps = Step.declared scope steps := by
    have notBuiltin : scope ≠ builtinScope := by
      rintro rfl
      exact absurd inside (Nat.not_lt_zero _)
    rw [Step.contents, if_neg notBuiltin, List.nil_append]
  have meant : ∀ {entries : List (String × DeclId)} {decls : List Declaration},
      List.Forall₂ symbols.Means entries decls →
      ((entries.map Prod.snd).filterMap fun id => symbols.decls[id]?) = decls := by
    intro entries decls all
    induction all with
    | nil => rfl
    | cons first _ ih => simp only [List.map_cons, List.filterMap_cons, first.2, ih]
  rw [SymbolTable.members, reflects.lookup_memberScopes_of_mem distinct member, Option.bind_some,
    present, ← contents, ← meant (reflects.names present), ← reflects.ordered present]

/-- A member is a declaration that the member scope holds. -/
theorem mem_members (reflects : symbols.Reflects steps) {owner : NodeId}
    (member : decl ∈ symbols.members owner) :
    ∃ scope, .setMembers owner scope ∈ steps ∧ decl ∈ Step.contents scope steps := by
  unfold SymbolTable.members at member
  split at member
  · cases member
  · rename_i found inner
    obtain ⟨scope, looked, present⟩ := Option.bind_eq_some_iff.mp inner
    obtain ⟨id, listed, means⟩ := List.mem_filterMap.mp member
    rw [reflects.ordered present] at listed
    obtain ⟨entry, inside, rfl⟩ := List.mem_map.mp listed
    obtain ⟨meant, holds, same⟩ := exists_of_forall₂_left (reflects.names present) inside
    have equal : some meant = some decl := same.2.symm.trans means
    cases equal
    exact ⟨scope, reflects.lookup_memberScopes looked, holds⟩

/-- A member that is looked up is one that the member scope holds. -/
theorem lookupMember_eq (reflects : symbols.Reflects steps) (distinct : Step.Distinct steps)
    {owner : NodeId} (member : .setMembers owner scope ∈ steps)
    (found : symbols.lookupMember? owner name = some id)
    (present : symbols.decls[id]? = some decl) :
    decl ∈ Step.contents scope steps ∧ decl.name = name := by
  rw [lookupMember?, reflects.lookup_memberScopes_of_mem distinct member] at found
  obtain ⟨meant, holds, here, same⟩ := reflects.declaredIn found
  rw [present] at here
  cases here
  exact ⟨holds, same⟩

/-! ## Coherence -/

/-- A scope of the program holds only what nodes of the program declare. -/
theorem declares_of_mem (positive : 0 < scope) (holds : decl ∈ Step.contents scope steps) :
    decl.node.isSome = true := by
  rcases Step.mem_contents_cases holds with ⟨rfl, _⟩ | declares
  · exact absurd positive (Nat.lt_irrefl 0)
  · exact Step.isSome_node_of_mem_declared declares

theorem coherent (reflects : symbols.Reflects steps) {next : ScopeId}
    (ordered : Step.Ordered next steps) : symbols.Coherent where
  declared := by
    intro scope name id found
    obtain ⟨decl, _, present, _⟩ := reflects.declaredIn found
    exact (Array.getElem?_eq_some_iff.mp present).1
  anchored := by
    intro id decl present nodeless
    rcases Step.mem_contents_cases (reflects.decls present) with ⟨_, builtin⟩ | declares
    · obtain ⟨entry, member, rfl⟩ := List.mem_map.mp builtin
      simp only [builtins, List.mem_cons, List.not_mem_nil, or_false] at member
      rcases member with rfl | rfl | rfl | rfl | rfl | rfl | rfl
      iterate 6 exact .inl rfl
      exact .inr ⟨.print, rfl⟩
    · have declares := Step.isSome_node_of_mem_declared declares
      rw [nodeless] at declares
      cases declares
  lookupMember := by
    intro owner name id found
    obtain ⟨scope, inner, declares⟩ := Option.bind_eq_some_iff.mp found
    obtain ⟨decl, holds, present, _⟩ := reflects.declaredIn declares
    exact ⟨decl, present,
      declares_of_mem (ordered.of_setMembers (reflects.lookup_memberScopes inner)) holds⟩
  members := by
    intro owner decl member
    obtain ⟨scope, owns, holds⟩ := reflects.mem_members member
    exact declares_of_mem (ordered.of_setMembers owns) holds

/-! ## Chains -/

theorem chainFrom_eq (reflects : symbols.Reflects steps) {next : ScopeId}
    (ordered : Step.Ordered next steps) {fuel more : Nat} (enough : scope < fuel)
    (enoughToo : scope < more) : symbols.chainFrom fuel scope = symbols.chainFrom more scope := by
  induction fuel generalizing scope more with
  | zero => exact absurd enough (Nat.not_lt_zero _)
  | succ fuel ih =>
    obtain _ | more := more
    · exact absurd enoughToo (Nat.not_lt_zero _)
    · simp only [chainFrom]
      cases present : symbols.scopes[scope]? with
      | none => rfl
      | some found =>
        rcases reflects.scopes present with ⟨_, outermost⟩ | ⟨parent, around, member⟩
        · simp only [outermost]
        · have inside := (ordered.of_openScope member).1
          simp only [around]
          rw [ih (Nat.lt_of_lt_of_le inside (Nat.le_of_lt_succ enough))
            (Nat.lt_of_lt_of_le inside (Nat.le_of_lt_succ enoughToo))]

/-- The scopes around the builtin scope: none. -/
theorem chain_builtin (reflects : symbols.Reflects steps) :
    symbols.chain builtinScope = [builtinScope] := by
  obtain ⟨names, order, present⟩ := reflects.builtin
  rw [chain, reflects.size, Nat.add_comm]
  simp only [chainFrom, builtinScope, present]

/-- The scopes around a scope that the walk opens: its own, and those around the one it lies in. -/
theorem chain_openScope (reflects : symbols.Reflects steps) {next : ScopeId}
    (ordered : Step.Ordered next steps) {kind : ScopeKind} {parent : ScopeId}
    (member : .openScope scope kind parent ∈ steps) :
    symbols.chain scope = scope :: symbols.chain parent := by
  obtain ⟨names, order, present⟩ := reflects.opened member
  have bound : scope < symbols.scopes.size := (Array.getElem?_eq_some_iff.mp present).1
  have inside := (ordered.of_openScope member).1
  rw [chain, reflects.chainFrom_eq ordered bound (Nat.lt_succ_of_lt bound)]
  simp only [chainFrom, present]
  rfl

/-- Further out along a chain are older scopes. -/
theorem chainFrom_older (reflects : symbols.Reflects steps) {next : ScopeId}
    (ordered : Step.Ordered next steps) (fuel : Nat) (scope : ScopeId) :
    (∀ outer ∈ symbols.chainFrom fuel scope, outer ≤ scope) ∧
      (symbols.chainFrom fuel scope).Pairwise fun inner outer => outer < inner := by
  induction fuel generalizing scope with
  | zero => simp [chainFrom]
  | succ fuel ih =>
    simp only [chainFrom]
    cases present : symbols.scopes[scope]? with
    | none => simp
    | some found =>
      rcases reflects.scopes present with ⟨_, outermost⟩ | ⟨parent, around, member⟩
      · simp [outermost]
      · have inside := (ordered.of_openScope member).1
        obtain ⟨older, decreasing⟩ := ih parent
        have below : ∀ outer ∈ symbols.chainFrom fuel parent, outer < scope :=
          fun outer reached => Nat.lt_of_le_of_lt (older outer reached) inside
        simp only [around]
        refine ⟨fun outer reached => ?_, .cons below decreasing⟩
        rcases List.mem_cons.mp reached with rfl | further
        · exact Nat.le_refl outer
        · exact Nat.le_of_lt (below outer further)

/-- The builtin scope lies around all others. -/
theorem getLast?_chain (reflects : symbols.Reflects steps) {next : ScopeId}
    (ordered : Step.Ordered next steps) {found : Scope}
    (present : symbols.scopes[scope]? = some found) :
    (symbols.chain scope).getLast? = some builtinScope := by
  induction scope using Nat.strongRecOn generalizing found with
  | ind scope ih =>
    rcases reflects.scopes present with ⟨rfl, _⟩ | ⟨parent, _, member⟩
    · rw [reflects.chain_builtin]
      rfl
    · have inside := (ordered.of_openScope member).1
      have bound : scope < symbols.scopes.size := (Array.getElem?_eq_some_iff.mp present).1
      have outer := Array.getElem?_eq_getElem (Nat.lt_trans inside bound)
      rw [reflects.chain_openScope ordered member, List.getLast?_cons, ih parent inside outer]
      rfl

/-- No scope lies around itself. -/
theorem nodup_chain (reflects : symbols.Reflects steps) {next : ScopeId}
    (ordered : Step.Ordered next steps) (scope : ScopeId) : (symbols.chain scope).Nodup :=
  (reflects.chainFrom_older ordered _ scope).2.imp Nat.ne_of_gt

end Reflects

end SymbolTable

end BoxScript
