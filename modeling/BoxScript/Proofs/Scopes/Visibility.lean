import BoxScript.Proofs.Scopes.Building
import Mathlib.Data.List.Nodup

/-!
# The nearest visible declaration

A name means the nearest declaration that is visible from where it stands
(`SymbolTable.nearest_of_lookup`). A declaration that only becomes visible further on is passed
over, and the search goes on in the scopes around. If it finds nothing, then the error tells whether
the name is declared at all.

The scopes around a scope are older ones (`SymbolTable.Around`), so the search comes to an end. It
depends on nothing but these scopes and what they declare under the name, which other declarations
leave as it is (`SymbolTable.lookup_after`).
-/

set_option autoImplicit false

namespace BoxScript

namespace SymbolTable

/-! ## Scopes and declarations -/

/-- A scope and those around it, from the inside out, up to one that lies inside none. -/
inductive Around (table : SymbolTable) : ScopeId → List ScopeId → Prop
  | outermost {scope : ScopeId} {found : Scope} (present : table.scopes[scope]? = some found)
      (last : found.parent = none) : Around table scope [scope]
  | inside {scope parent : ScopeId} {found : Scope} {outer : List ScopeId}
      (present : table.scopes[scope]? = some found) (within : found.parent = some parent)
      (others : Around table parent outer) : Around table scope (scope :: outer)

/-- Whether a reference at a position may mean a declaration: in the builtin scope and among members
from everywhere, elsewhere from where the declaration becomes visible. -/
def Visible (table : SymbolTable) (decl : Declaration) (position : Nat) : Prop :=
  ∃ home, table.scopes[decl.scope]? = some home ∧
    (home.kind ∈ [.builtin, .struct, .box] ∨ decl.visibleFrom ≤ position)

/-- Whether some scope declares a name. -/
def Declared (table : SymbolTable) (chain : List ScopeId) (name : String) : Prop :=
  ∃ scope ∈ chain, ∃ id decl, table.Declares scope name id decl

/-- Whether no declaration of a name in some scopes is visible from a position. -/
def Hidden (table : SymbolTable) (chain : List ScopeId) (name : String) (position : Nat) : Prop :=
  ∀ scope ∈ chain, ∀ id decl, table.Declares scope name id decl → ¬ table.Visible decl position

/-- The declaration of a name in the first of some scopes that has a visible one. -/
def Nearest (table : SymbolTable) (chain : List ScopeId) (name : String) (position : Nat)
    (id : DeclId) : Prop :=
  ∃ inner scope outer decl, chain = inner ++ scope :: outer ∧
    table.Declares scope name id decl ∧ table.Visible decl position ∧
    table.Hidden inner name position

variable {table later : SymbolTable} {scope : ScopeId} {chain : List ScopeId} {name : String}
  {position : Nat} {id : DeclId} {decl : Declaration}

theorem Around.eq {other : List ScopeId} (around : table.Around scope chain)
    (also : table.Around scope other) : chain = other := by
  induction around generalizing other with
  | outermost present last =>
    cases also with
    | outermost _ _ => rfl
    | inside presentToo within _ =>
      cases present.symm.trans presentToo
      cases last.symm.trans within
  | inside present within _ ih =>
    cases also with
    | outermost presentToo last =>
      cases present.symm.trans presentToo
      cases last.symm.trans within
    | inside presentToo withinToo others =>
      cases present.symm.trans presentToo
      cases within.symm.trans withinToo
      rw [ih others]

theorem Around.present (around : table.Around scope chain) :
    ∀ outer ∈ chain, ∃ found, table.scopes[outer]? = some found := by
  induction around with
  | outermost present _ => exact List.forall_mem_singleton.mpr ⟨_, present⟩
  | inside present _ _ ih => exact List.forall_mem_cons.mpr ⟨⟨_, present⟩, ih⟩

theorem Sound.around_chainFrom (sound : table.Sound) {fuel : Nat} (enough : scope < fuel)
    (fits : scope < table.scopes.size) : table.Around scope (table.chainFrom fuel scope) := by
  induction fuel generalizing scope with
  | zero => exact absurd enough (Nat.not_lt_zero _)
  | succ fuel ih =>
    have present := Array.getElem?_eq_getElem fits
    generalize table.scopes[scope] = found at present
    simp only [chainFrom, present]
    cases within : found.parent with
    | none => exact .outermost present within
    | some parent =>
      have older := sound.older present within
      exact .inside present within
        (ih (Nat.lt_of_lt_of_le older (Nat.le_of_lt_succ enough)) (Nat.lt_trans older fits))

/-- The scopes that are looked through are all those around the scope. -/
theorem Sound.around_chain (sound : table.Sound) (fits : scope < table.scopes.size) :
    table.Around scope (table.chain scope) :=
  sound.around_chainFrom fits fits

/-- The name that a scope has is that of a declaration in it. -/
theorem Sound.declaredIn?_eq_some_iff (sound : table.Sound) :
    table.declaredIn? scope name = some id ↔ ∃ decl, table.Declares scope name id decl := by
  constructor
  · intro declared
    obtain ⟨found, present, looked⟩ := Option.bind_eq_some_iff.mp declared
    obtain ⟨before, after, split, _⟩ := List.lookup_eq_some_iff.mp looked
    exact (sound.names present).mp (split ▸ List.mem_append_right _ List.mem_cons_self)
  · rintro ⟨decl, declares⟩
    have fits : scope < table.scopes.size := declares.home ▸ sound.homes declares.present
    have present := Array.getElem?_eq_getElem fits
    generalize table.scopes[scope] = found at present
    have member := (sound.names present).mpr ⟨decl, declares⟩
    rw [declaredIn?_eq present]
    cases looked : found.names.lookup name with
    | none => simpa using List.lookup_eq_none_iff.mp looked _ member
    | some other =>
      obtain ⟨before, after, split, _⟩ := List.lookup_eq_some_iff.mp looked
      have there : (name, other) ∈ found.names :=
        split ▸ List.mem_append_right _ List.mem_cons_self
      have same := List.inj_on_of_nodup_map (sound.distinct present) there member rfl
      rw [(Prod.mk.inj same).2]

theorem Declares.isVisible_iff (declares : table.Declares scope name id decl) :
    table.isVisible scope id position = true ↔ table.Visible decl position := by
  rw [isVisible, declares.present, Visible, declares.home]
  cases table.scopes[scope]? with
  | none => simp
  | some home => cases kind : home.kind <;> simp [kind, ScopeKind.isSequential]

/-! ## The search -/

theorem Nearest.cons (hidden : table.Hidden [scope] name position)
    (nearest : table.Nearest chain name position id) :
    table.Nearest (scope :: chain) name position id := by
  obtain ⟨inner, home, outer, decl, split, declares, visible, nearer⟩ := nearest
  refine ⟨scope :: inner, home, outer, decl, by rw [split, List.cons_append], declares, visible, ?_⟩
  exact List.forall_mem_cons.mpr ⟨List.forall_mem_singleton.mp hidden, nearer⟩

theorem Hidden.cons (hidden : table.Hidden [scope] name position)
    (others : table.Hidden chain name position) : table.Hidden (scope :: chain) name position :=
  List.forall_mem_cons.mpr ⟨List.forall_mem_singleton.mp hidden, others⟩

theorem Nearest.declared (nearest : table.Nearest chain name position id) :
    table.Declared chain name := by
  obtain ⟨inner, scope, outer, decl, split, declares, _, _⟩ := nearest
  exact ⟨scope, split ▸ List.mem_append_right _ List.mem_cons_self, id, decl, declares⟩

theorem declared_cons : table.Declared (scope :: chain) name ↔
    (∃ id decl, table.Declares scope name id decl) ∨ table.Declared chain name := by
  simp only [Declared, List.exists_mem_cons_iff]

/-- The search along a chain finds the nearest visible declaration. If there is none, then its error
tells whether one was passed over, before or along the chain. -/
theorem Sound.lookupAlong_cases (sound : table.Sound) (name : String) (position : Nat)
    (passed : Bool) (chain : List ScopeId) :
    (∃ id, table.Nearest chain name position id ∧
      table.lookupAlong name position passed chain = .ok id) ∨
    (table.Hidden chain name position ∧ (passed = true ∨ table.Declared chain name) ∧
      table.lookupAlong name position passed chain = .error (.usedBeforeDeclaration name)) ∨
    (passed = false ∧ ¬ table.Declared chain name ∧
      table.lookupAlong name position passed chain = .error (.unresolved (.symbol name))) := by
  induction chain generalizing passed with
  | nil =>
    cases passed with
    | true => exact .inr (.inl ⟨List.forall_mem_nil _, .inl rfl, rfl⟩)
    | false => exact .inr (.inr ⟨rfl, by simp [Declared], rfl⟩)
  | cons scope outer ih =>
    cases declared : table.declaredIn? scope name with
    | none =>
      have absent : ∀ id decl, ¬ table.Declares scope name id decl := by
        intro id decl declares
        rw [sound.declaredIn?_eq_some_iff.mpr ⟨decl, declares⟩] at declared
        cases declared
      have hidden : table.Hidden [scope] name position :=
        List.forall_mem_singleton.mpr fun id decl declares => absurd declares (absent id decl)
      have skips : table.lookupAlong name position passed (scope :: outer) =
          table.lookupAlong name position passed outer := by
        simp only [lookupAlong, declared]
      have same : table.Declared (scope :: outer) name ↔ table.Declared outer name := by
        simp [declared_cons, absent]
      rw [skips, same]
      exact (ih passed).imp (fun ⟨id, nearest, found⟩ => ⟨id, nearest.cons hidden, found⟩)
        (.imp_left fun ⟨others, rest⟩ => ⟨hidden.cons others, rest⟩)
    | some id =>
      obtain ⟨decl, declares⟩ := sound.declaredIn?_eq_some_iff.mp declared
      by_cases visible : table.Visible decl position
      · have finds : table.lookupAlong name position passed (scope :: outer) = .ok id := by
          simp only [lookupAlong, declared, if_pos (declares.isVisible_iff.mpr visible)]
        exact .inl ⟨id, ⟨[], scope, outer, decl, rfl, declares, visible, List.forall_mem_nil _⟩,
          finds⟩
      · have passes : table.lookupAlong name position passed (scope :: outer) =
            table.lookupAlong name position true outer := by
          simp only [lookupAlong, declared, if_neg (mt declares.isVisible_iff.mp visible)]
        have hidden : table.Hidden [scope] name position := by
          refine List.forall_mem_singleton.mpr fun other hidden declaresToo => ?_
          have same := declared.symm.trans (sound.declaredIn?_eq_some_iff.mpr ⟨_, declaresToo⟩)
          cases same
          cases declares.present.symm.trans declaresToo.present
          exact visible
        have here : table.Declared (scope :: outer) name :=
          declared_cons.mpr (.inl ⟨id, decl, declares⟩)
        rw [passes]
        rcases ih true with ⟨id, nearest, found⟩ | ⟨others, _, found⟩ | ⟨impossible, _⟩
        · exact .inl ⟨id, nearest.cons hidden, found⟩
        · exact .inr (.inl ⟨hidden.cons others, .inr here, found⟩)
        · cases impossible

theorem Sound.lookup_cases (sound : table.Sound) (scope : ScopeId) (name : String)
    (position : Nat) :
    (∃ id, table.Nearest (table.chain scope) name position id ∧
      table.lookup scope name position = .ok id) ∨
    (table.Hidden (table.chain scope) name position ∧ table.Declared (table.chain scope) name ∧
      table.lookup scope name position = .error (.usedBeforeDeclaration name)) ∨
    (¬ table.Declared (table.chain scope) name ∧
      table.lookup scope name position = .error (.unresolved (.symbol name))) := by
  rcases sound.lookupAlong_cases name position false (table.chain scope) with
    found | ⟨hidden, impossible | declared, used⟩ | ⟨_, absent, unresolved⟩
  · exact .inl found
  · cases impossible
  · exact .inr (.inl ⟨hidden, declared, used⟩)
  · exact .inr (.inr ⟨absent, unresolved⟩)

/-! ## Later calls -/

/-- Whether a call declares no name in some scopes, or another one. -/
def Call.Spares (name : String) (chain : List ScopeId) : Call → Prop
  | .declare scope other _ _ _ _ => other ≠ name ∨ scope ∉ chain
  | .pushScope _ _ | .setMembers _ _ => True

theorem Around.after {call : Call} (around : table.Around scope chain) :
    (table.after call).Around scope chain := by
  induction around with
  | outermost present last =>
    obtain ⟨names, order, stays, _⟩ := scope_after present
    exact .outermost stays last
  | inside present within _ ih =>
    obtain ⟨names, order, stays, _⟩ := scope_after present
    exact .inside stays within ih

/-- The search depends on what the scopes declare under the name, and on whether it is visible. -/
theorem lookupAlong_congr (same : ∀ scope ∈ chain,
      later.declaredIn? scope name = table.declaredIn? scope name ∧
      ∀ id, table.declaredIn? scope name = some id →
        later.isVisible scope id position = table.isVisible scope id position) (passed : Bool) :
    later.lookupAlong name position passed chain =
      table.lookupAlong name position passed chain := by
  induction chain generalizing passed with
  | nil => cases passed <;> rfl
  | cons scope outer ih =>
    obtain ⟨⟨declared, visible⟩, others⟩ := List.forall_mem_cons.mp same
    rw [lookupAlong, lookupAlong, declared]
    cases found : table.declaredIn? scope name with
    | none => exact ih others passed
    | some id =>
      simp only [visible id found]
      split
      · rfl
      · exact ih others true

/-- A call that declares something else does not change what a name means. -/
theorem Sound.lookup_after (sound : table.Sound) (fits : scope < table.scopes.size) {call : Call}
    (callFits : call.Fits table) (spares : call.Spares name (table.chain scope)) (position : Nat) :
    (table.after call).lookup scope name position = table.lookup scope name position := by
  have around := sound.around_chain fits
  have stays : (table.after call).chain scope = table.chain scope :=
    ((sound.after callFits).around_chain (Nat.lt_of_lt_of_le fits size_le_after)).eq around.after
  rw [lookup, lookup, stays]
  refine lookupAlong_congr (fun home member => ?_) false
  obtain ⟨found, present⟩ := around.present home member
  obtain ⟨names, order, kept, looked⟩ := @scope_after table home call found present
  have other : ∀ kind node visibleFrom span,
      call ≠ .declare home name kind node visibleFrom span := by
    rintro kind node visibleFrom span rfl
    exact spares.elim (fun apart => apart rfl) fun outside => outside member
  refine ⟨?_, fun id declared => ?_⟩
  · rw [declaredIn?_eq kept, declaredIn?_eq present, looked name other]
  · obtain ⟨decl, declares⟩ := sound.declaredIn?_eq_some_iff.mp declared
    simp only [isVisible, kept, present, decls_after declares.present, declares.present]

/-- Nor do any number of such calls. -/
theorem Sound.lookup_runs (sound : table.Sound) (fits : scope < table.scopes.size)
    {calls : List Call} (runs : table.Runs calls later)
    (spares : ∀ call ∈ calls, call.Spares name (table.chain scope)) (position : Nat) :
    later.lookup scope name position = table.lookup scope name position := by
  induction runs with
  | nil => rfl
  | @cons table later call calls callFits _ ih =>
    obtain ⟨first, others⟩ := List.forall_mem_cons.mp spares
    have fitsToo := Nat.lt_of_lt_of_le fits (@size_le_after table call)
    have stays := ((sound.after callFits).around_chain fitsToo).eq (sound.around_chain fits).after
    rw [ih (sound.after callFits) fitsToo (stays ▸ others), sound.lookup_after fits callFits first]

/-! ## What a name means -/

/-- In a table that calls have built up, a name means the nearest declaration that is visible from
its position, along the chain of all scopes around it. If none is visible, then the error says that
the name is used before its declaration if it is declared in one of these scopes, and that it is
unresolved if it is declared in none. Later calls do not change this, unless they declare the very
name in one of these scopes. -/
theorem nearest_of_lookup {built : List Call} (runs : initial.Runs built table)
    (fits : scope < table.scopes.size) (name : String) (position : Nat) :
    ∃ chain, table.Around scope chain ∧
      ((∃ id, table.Nearest chain name position id ∧
          table.lookup scope name position = .ok id) ∨
        (table.Hidden chain name position ∧ table.Declared chain name ∧
          table.lookup scope name position = .error (.usedBeforeDeclaration name)) ∨
        (¬ table.Declared chain name ∧
          table.lookup scope name position = .error (.unresolved (.symbol name)))) ∧
      (table.lookup scope name position = .error (.unresolved (.symbol name)) ↔
        ¬ table.Declared chain name) ∧
      ∀ calls later, table.Runs calls later → (∀ call ∈ calls, call.Spares name chain) →
        later.lookup scope name position = table.lookup scope name position := by
  have sound := sound_initial.runs runs
  have means := sound.lookup_cases scope name position
  refine ⟨table.chain scope, sound.around_chain fits, means, ?_, ?_⟩
  · rcases means with ⟨id, nearest, found⟩ | ⟨_, declared, used⟩ | ⟨absent, unresolved⟩
    · exact iff_of_false (by rw [found]; exact nofun) (not_not_intro nearest.declared)
    · exact iff_of_false (by rw [used]; exact nofun) (not_not_intro declared)
    · exact iff_of_true unresolved absent
  · exact fun calls later runs spares => sound.lookup_runs fits runs spares position

/-- A declaration in an inner block that comes too late, behind a scope without the name. -/
theorem nearest_behind_late_declaration :
    let calls : List Call := [.pushScope .root (some builtinScope),
      .declare 1 "x" .var (some 3) 5 (.within "main.sigh" 0 5), .pushScope .function (some 1),
      .pushScope .block (some 2), .declare 3 "x" .var (some 8) 40 (.within "main.sigh" 35 40)]
    let table := calls.foldl after initial
    initial.Runs calls table ∧ 3 < table.scopes.size ∧ table.lookup 3 "x" 20 = .ok 7 ∧
    ∃ chain, table.Around 3 chain ∧ table.Nearest chain "x" 20 7 ∧
      ∀ calls later, table.Runs calls later → (∀ call ∈ calls, call.Spares "x" chain) →
        later.lookup 3 "x" 20 = .ok 7 := by
  intro calls table
  have runs : initial.Runs calls table := .cons (by decide) (.cons (by decide) (.cons (by decide)
    (.cons (by decide) (.cons (by decide) .nil))))
  have fits : 3 < table.scopes.size := by decide
  have found : table.lookup 3 "x" 20 = .ok 7 := rfl
  refine ⟨runs, fits, found, ?_⟩
  obtain ⟨chain, around, means, _, stays⟩ := nearest_of_lookup runs fits "x" 20
  rw [found] at means stays
  rcases means with ⟨id, nearest, same⟩ | ⟨_, _, impossible⟩ | ⟨_, impossible⟩
  · cases same
    exact ⟨chain, around, nearest, stays⟩
  · cases impossible
  · cases impossible

end SymbolTable

end BoxScript
