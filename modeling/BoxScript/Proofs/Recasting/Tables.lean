import BoxScript.Proofs.Recasting.Walk
import BoxScript.Proofs.Walking.Duplicates
import BoxScript.Proofs.Walking.Sites

/-!
# Symbol tables of trees cast anew

The walk over a tree and the walk over it cast anew make symbol tables that go with each other:
each scope of the first has a counterpart in the second, which holds the same declarations in the
same order, under the names that they have there (`Survey.recasts_foldl`). The second walk may take
other steps in between, as the walk over a longer program does, as long as these declare no name of
the tree in a scope of the tree.

A name then means the same in both (`looks_survey`), if names are told apart alike and
references come after the same declarations.
-/

set_option autoImplicit false

namespace BoxScript

/-- What a declaration becomes when the tree is cast anew and its scopes get other numbers. Builtins
stay what they are. -/
def Recast.declaration (r : Recast) (move : ScopeId → ScopeId) (decl : Declaration) : Declaration :=
  match decl.node with
  | .none => decl
  | some node =>
    ⟨r.called decl.kind node decl.name, decl.kind, some node, move decl.scope,
      decl.kind.visibleFrom (r.span decl.span), r.span decl.span⟩

@[simp]
theorem Recast.kind_declaration (r : Recast) (move : ScopeId → ScopeId) (decl : Declaration) :
    (r.declaration move decl).kind = decl.kind := by
  unfold declaration
  split <;> rfl

@[simp]
theorem Recast.node_declaration (r : Recast) (move : ScopeId → ScopeId) (decl : Declaration) :
    (r.declaration move decl).node = decl.node := by
  unfold declaration
  split
  · rfl
  · rename_i is
    exact is.symm

/-- Structs and boxes keep their names. -/
@[simp]
theorem Recast.namedType_declaration (r : Recast) (move : ScopeId → ScopeId) (decl : Declaration) :
    (r.declaration move decl).namedType? = decl.namedType? := by
  obtain ⟨name, kind, node, scope, position, span⟩ := decl
  cases node with
  | none => rfl
  | some node => cases kind <;> rfl

/-- Another step of the second walk that declares a name in a scope. -/
def Step.Strange (extra : Step → Prop) (scope : ScopeId) (name : String) : Prop :=
  ∃ kind mark position, extra (.declare scope name kind mark position)

/-- What is taken for granted of the steps of a walk and of the steps that the other walk takes in
between: declarations of one scope are told apart by their new names as they were by their old
ones, and no step in between declares a new name in its scope. -/
structure Recast.Tells (r : Recast) (mirror : Mirror) (move : ScopeId → ScopeId)
    (extra : Step → Prop) (whole : List Step) : Prop where
  injective : ∀ {scope other : ScopeId}, move scope = move other → scope = other
  outermost : move SymbolTable.builtinScope = SymbolTable.builtinScope
  distinct : ∀ {scope : ScopeId} {decl other : Declaration}, decl ∈ Step.declared scope whole →
    other ∈ Step.declared scope whole →
    ((r.declaration move decl).name = (r.declaration move other).name ↔ decl.name = other.name)
  apart : ∀ {scope : ScopeId} {decl : Declaration}, decl ∈ Step.declared scope whole →
    ¬ Step.Strange extra (move scope) (r.declaration move decl).name
  named : mirror.lenient ∨ ∀ id name, r.name id name = name

namespace SymbolTable

/-- Entries of scopes that mean declarations that go with each other, one of them among given
ones. -/
def EntriesRecast (r : Recast) (move : ScopeId → ScopeId) (goes : DeclId → DeclId → Prop)
    (held : List Declaration) (entry image : String × DeclId) : Prop :=
  goes entry.2 image.2 ∧
    ∃ decl ∈ held, entry.1 = decl.name ∧ image.1 = (r.declaration move decl).name

/-- Tables of which the second has what the first has, cast anew, and what other steps declare. -/
structure Recasts (r : Recast) (move : ScopeId → ScopeId) (extra : Step → Prop)
    (whole : List Step) (goes : DeclId → DeclId → Prop) (left right : SymbolTable) : Prop where
  decls : ∀ {id image : DeclId}, goes id image → ∃ decl ∈ Step.contents decl.scope whole,
    left.decls[id]? = some decl ∧ right.decls[image]? = some (r.declaration move decl)
  scopes : ∀ {scope : ScopeId} {found : Scope}, left.scopes[scope]? = some found →
    ∃ other, right.scopes[move scope]? = some other ∧ other.kind = found.kind ∧
      Matched (EntriesRecast r move goes (Step.contents scope whole))
        (fun entry => Step.Strange extra (move scope) entry.1) found.names other.names
  members : ∀ {owner : NodeId}, (∀ scope, ¬ extra (.setMembers owner scope)) →
    right.memberScopes.lookup owner = (left.memberScopes.lookup owner).map move
  numbered : (∀ step, extra step → step.isDeclaration = false) →
    right.decls.size = left.decls.size ∧ ∀ id image, goes id image → image = id

variable {r : Recast} {mirror : Mirror} {move : ScopeId → ScopeId} {extra : Step → Prop}
  {nodes : List Node} {whole : List Step} {goes : DeclId → DeclId → Prop}
  {left right : SymbolTable}

/-! ## Names in a scope -/

/-- Names that are looked up in entries that go with each other. -/
theorem lookup_matched {held : List Declaration} {scope : ScopeId} {name called : String}
    {entries images : List (String × DeclId)}
    (matched : Matched (EntriesRecast r move goes held)
      (fun entry => Step.Strange extra scope entry.1) entries images)
    (agree : ∀ decl ∈ held, ((r.declaration move decl).name = called ↔ decl.name = name))
    (apart : ¬ Step.Strange extra scope called) :
    Option.Rel goes (entries.lookup name) (images.lookup called) := by
  induction matched with
  | nil => exact .none
  | @cons entry image _ _ first _ ih =>
    obtain ⟨key, id⟩ := entry
    obtain ⟨other, number⟩ := image
    obtain ⟨here, decl, member, rfl, rfl⟩ := first
    have same := agree decl member
    by_cases equal : decl.name = name
    · rw [List.lookup_cons, List.lookup_cons, equal, same.mpr equal]
      simp only [BEq.rfl]
      exact .some here
    · rw [List.lookup_cons, List.lookup_cons, beq_false_of_ne (Ne.symm equal),
        beq_false_of_ne (Ne.symm (mt same.mp equal))]
      exact ih
  | @skip image _ _ strange _ ih =>
    obtain ⟨other, number⟩ := image
    have different : called ≠ other := by
      rintro rfl
      exact apart strange
    rw [List.lookup_cons, beq_false_of_ne different]
    exact ih

namespace Recasts

variable (recasts : left.Recasts r move extra whole goes right)

include recasts

/-- A name in a scope and what it is called in the counterpart of the scope. -/
theorem declaredIn {scope : ScopeId} {found : Scope} {name called : String}
    (present : left.scopes[scope]? = some found)
    (agree : ∀ decl ∈ Step.contents scope whole,
      ((r.declaration move decl).name = called ↔ decl.name = name))
    (apart : ¬ Step.Strange extra (move scope) called) :
    Option.Rel goes (left.declaredIn? scope name) (right.declaredIn? (move scope) called) := by
  obtain ⟨other, image, _, matched⟩ := recasts.scopes present
  rw [SymbolTable.declaredIn?, SymbolTable.declaredIn?, present, image]
  exact lookup_matched matched agree apart

/-- A name that no declaration of a scope has in the end. -/
theorem declaredIn_eq_none {scope : ScopeId} {found : Scope} {called : String}
    (present : left.scopes[scope]? = some found)
    (other : ∀ decl ∈ Step.contents scope whole, (r.declaration move decl).name ≠ called)
    (apart : ¬ Step.Strange extra (move scope) called) :
    right.declaredIn? (move scope) called = none := by
  obtain ⟨image, presentToo, _, matched⟩ := recasts.scopes present
  rw [SymbolTable.declaredIn?, presentToo, Option.bind_some, List.lookup_eq_none_iff]
  intro entry member
  have different : called ≠ entry.1 := by
    rcases matched.mem_right member with ⟨_, _, _, decl, holds, _, same⟩ | strange
    · rw [same]
      exact (other decl holds).symm
    · rintro rfl
      exact apart strange
  simpa using different

/-- A declaration is visible from where its counterpart is. -/
theorem isVisible {scope : ScopeId} {found : Scope} {id image : DeclId} {position place : Nat}
    (present : left.scopes[scope]? = some found) (here : goes id image)
    (order : ∀ decl ∈ Step.contents decl.scope whole,
      ((r.declaration move decl).visibleFrom ≤ place ↔ decl.visibleFrom ≤ position)) :
    right.isVisible (move scope) image place = left.isVisible scope id position := by
  obtain ⟨other, otherPresent, kind, _⟩ := recasts.scopes present
  obtain ⟨decl, member, declPresent, imagePresent⟩ := recasts.decls here
  simp only [SymbolTable.isVisible, present, otherPresent, declPresent, imagePresent, kind,
    order decl member]

end Recasts

/-! ## The same steps on both sides -/

theorem scopes_extend {symbols : SymbolTable} {decl : Declaration} {scope : ScopeId} {found : Scope}
    (present : symbols.scopes[scope]? = some found) :
    (symbols.extend decl).scopes[scope]? = some (if decl.scope = scope then
      { found with
        names := found.names ++ [(decl.name, symbols.decls.size)]
        order := found.order ++ [symbols.decls.size] } else found) := by
  simp only [extend, Array.getElem?_modify, present, Option.map_some]
  split <;> rfl

theorem EntriesRecast.imp {held : List Declaration} {further : DeclId → DeclId → Prop}
    (implies : ∀ id image, goes id image → further id image) {entry image : String × DeclId}
    (here : EntriesRecast r move goes held entry image) :
    EntriesRecast r move further held entry image :=
  ⟨implies _ _ here.1, here.2⟩

theorem recasts_initial (outermost : move builtinScope = builtinScope) :
    initial.Recasts r move extra whole (fun id image => image = id ∧ id < initial.decls.size)
      initial where
  decls := by
    rintro id image ⟨is, bound⟩
    rw [is]
    have present := Array.getElem?_eq_getElem bound
    have holds := reflects_initial.decls present
    rw [Step.contents, Step.declared_nil, List.append_nil] at holds
    refine ⟨_, List.mem_append_left _ holds, present, ?_⟩
    have nodeless : (initial.decls[id]).node = none := by
      split at holds
      · obtain ⟨_, _, is⟩ := List.mem_map.mp holds
        rw [← is]
      · cases holds
    rw [present, Recast.declaration, nodeless]
  scopes := by
    intro scope found present
    have same : move scope = scope := by
      rcases reflects_initial.scopes present with ⟨rfl, _⟩ | ⟨_, _, member⟩
      · exact outermost
      · cases member
    refine ⟨found, by rwa [same], rfl, ?_⟩
    have named := reflects_initial.names present
    have held : ∀ decl ∈ Step.contents scope [], decl ∈ Step.contents scope whole ∧
        r.declaration move decl = decl := by
      intro decl member
      rw [Step.contents, Step.declared_nil, List.append_nil] at member
      refine ⟨List.mem_append_left _ member, ?_⟩
      split at member
      · obtain ⟨_, _, rfl⟩ := List.mem_map.mp member
        rfl
      · cases member
    generalize found.names = entries at named
    generalize Step.contents scope [] = decls at named held
    induction named with
    | nil => exact .nil
    | @cons entry decl _ _ first _ ih =>
      obtain ⟨member, kept⟩ := held decl List.mem_cons_self
      refine .cons ⟨⟨rfl, ?_⟩, decl, member, first.1, ?_⟩
        (ih fun decl member => held decl (List.mem_cons_of_mem _ member))
      · exact (Array.getElem?_eq_some_iff.mp first.2).1
      · rw [kept]
        exact first.1
  members := fun _ => rfl
  numbered := fun _ => ⟨rfl, fun _ _ here => here.1⟩

namespace Recasts

theorem openScope (recasts : left.Recasts r move extra whole goes right) {kind : ScopeKind}
    {parent around : Option ScopeId} (same : right.scopes.size = move left.scopes.size) :
    (left.pushScope kind parent).2.Recasts r move extra whole goes
      (right.pushScope kind around).2 where
  decls := recasts.decls
  scopes := by
    intro scope found present
    rcases getElem?_push_cases present with old | ⟨rfl, rfl⟩
    · obtain ⟨other, image, rest⟩ := recasts.scopes old
      exact ⟨other, getElem?_push_of_eq_some _ image, rest⟩
    · refine ⟨⟨kind, around, [], []⟩, ?_, rfl, .nil⟩
      rw [← same]
      exact Array.getElem?_push_size
  members := recasts.members
  numbered := recasts.numbered

/-- A name that is declared on both sides. -/
theorem extend (tells : r.Tells mirror move extra whole)
    (recasts : left.Recasts r move extra whole goes right) {decl : Declaration}
    (member : decl ∈ Step.declared decl.scope whole) :
    (left.extend decl).Recasts r move extra whole
      (fun id image => goes id image ∨ id = left.decls.size ∧ image = right.decls.size)
      (right.extend (r.declaration move decl)) where
  decls := by
    rintro id image (old | ⟨rfl, rfl⟩)
    · obtain ⟨other, holds, present, found⟩ := recasts.decls old
      exact ⟨other, holds, getElem?_push_of_eq_some _ present, getElem?_push_of_eq_some _ found⟩
    · exact ⟨decl, List.mem_append_right _ member, Array.getElem?_push_size,
        Array.getElem?_push_size⟩
  scopes := by
    intro scope found present
    have moved : (r.declaration move decl).scope = move decl.scope := by
      have declares := Step.isSome_node_of_mem_declared member
      obtain ⟨node, is⟩ := Option.isSome_iff_exists.mp declares
      rw [Recast.declaration, is]
    rcases getElem?_extend present with ⟨apart, present⟩ | ⟨old, rfl, had, rfl⟩
    · obtain ⟨other, image, kind, matched⟩ := recasts.scopes present
      have different : move decl.scope ≠ move scope := fun same =>
        apart (tells.injective same).symm
      refine ⟨other, ?_, kind, matched.imp fun _ _ _ _ here => here.imp fun _ _ => .inl⟩
      rw [scopes_extend image, moved, if_neg different]
    · obtain ⟨other, image, kind, matched⟩ := recasts.scopes had
      refine ⟨_, scopes_extend image, ?_, ?_⟩ <;> rw [moved, if_pos rfl]
      · exact kind
      · refine (matched.imp fun _ _ _ _ here => here.imp fun _ _ => .inl).append (.single ?_)
        exact ⟨.inr ⟨rfl, rfl⟩, decl, List.mem_append_right _ member, rfl, rfl⟩
  members := recasts.members
  numbered := by
    intro silent
    obtain ⟨size, same⟩ := recasts.numbered silent
    refine ⟨by simp only [SymbolTable.extend, Array.size_push, size], ?_⟩
    rintro id image (old | ⟨rfl, rfl⟩)
    · exact same id image old
    · exact size

/-- A member scope that is named on both sides. -/
theorem setMembers (recasts : left.Recasts r move extra whole goes right) (owner : NodeId)
    (scope : ScopeId) :
    (left.setMembers owner scope).Recasts r move extra whole goes
      (right.setMembers owner (move scope)) where
  decls := recasts.decls
  scopes := recasts.scopes
  members := by
    intro other known
    simp only [SymbolTable.setMembers, List.lookup_cons]
    split
    · rfl
    · exact recasts.members known
  numbered := recasts.numbered

/-! ## Steps of the second side alone -/

theorem pushRight (recasts : left.Recasts r move extra whole goes right) (kind : ScopeKind)
    (parent : Option ScopeId) :
    left.Recasts r move extra whole goes (right.pushScope kind parent).2 where
  decls := recasts.decls
  scopes := by
    intro scope found present
    obtain ⟨other, image, rest⟩ := recasts.scopes present
    exact ⟨other, getElem?_push_of_eq_some _ image, rest⟩
  members := recasts.members
  numbered := recasts.numbered

theorem extendRight (recasts : left.Recasts r move extra whole goes right) {scope : ScopeId}
    {name : String} {kind : DeclKind} {mark : Mark} {position : Nat}
    (added : extra (.declare scope name kind mark position)) :
    left.Recasts r move extra whole goes
      (right.extend ⟨name, kind, some mark.id, scope, position, mark.span⟩) where
  decls := by
    intro id image here
    obtain ⟨other, holds, present, found⟩ := recasts.decls here
    exact ⟨other, holds, present, getElem?_push_of_eq_some _ found⟩
  scopes := by
    intro home found present
    obtain ⟨other, image, kind, matched⟩ := recasts.scopes present
    refine ⟨_, scopes_extend image, ?_, ?_⟩
    · split <;> exact kind
    · split
      · rename_i same
        obtain rfl : scope = move home := same
        rw [← List.append_nil found.names]
        exact matched.append (.skip ⟨_, _, _, added⟩ .nil)
      · exact matched
  members := recasts.members
  numbered := by
    intro silent
    cases silent _ added

theorem setMembersRight (recasts : left.Recasts r move extra whole goes right) {owner : NodeId}
    {scope : ScopeId} (added : extra (.setMembers owner scope)) :
    left.Recasts r move extra whole goes (right.setMembers owner scope) where
  decls := recasts.decls
  scopes := recasts.scopes
  members := by
    intro other known
    have different : other ≠ owner := by
      rintro rfl
      exact known scope added
    simp only [SymbolTable.setMembers, List.lookup_cons, beq_false_of_ne different]
    exact recasts.members known
  numbered := recasts.numbered

end Recasts

end SymbolTable

/-! ## Following steps -/

namespace Survey

variable {r : Recast} {mirror : Mirror} {move : ScopeId → ScopeId} {extra : Step → Prop}
  {nodes : List Node} {whole : List Step} {goes : DeclId → DeclId → Prop}
  {left right survey : Survey}

/-- The report of a duplicate name by a step of the second walk alone. -/
def Stray (extra : Step → Prop) (error : SemanticError) : Prop :=
  ∃ scope name kind mark position, extra (.declare scope name kind mark position) ∧
    error = ⟨.duplicate name, mark.span⟩

/-- Surveys with tables that go with each other and reports of the same duplicate names. -/
structure Recasts (r : Recast) (mirror : Mirror) (move : ScopeId → ScopeId) (extra : Step → Prop)
    (whole : List Step) (goes : DeclId → DeclId → Prop) (left right : Survey) : Prop where
  symbols : left.symbols.Recasts r move extra whole goes right.symbols
  errors : Matched mirror.Errors (Stray extra) left.errors.toList right.errors.toList

theorem size_take (step : Step) :
    (survey.take step).symbols.scopes.size =
      survey.symbols.scopes.size + Step.opened [step] := by
  cases step with
  | openScope scope kind parent =>
    simp [Survey.take, SymbolTable.pushScope]
  | declare scope name kind mark position =>
    simp only [Survey.take, SymbolTable.declare, Step.opened_declare_cons, Step.opened_nil,
      Nat.add_zero]
    split
    · rename_i declared
      split at declared
      · cases declared
      · cases declared
        exact Array.size_modify
    · rfl
  | _ => rfl

theorem size_foldl (steps : List Step) :
    (steps.foldl take survey).symbols.scopes.size =
      survey.symbols.scopes.size + Step.opened steps := by
  induction steps generalizing survey with
  | nil => rfl
  | cons step rest ih =>
    rw [List.foldl_cons, ih, size_take, Nat.add_assoc, ← Step.opened_append, List.singleton_append]

/-- What becomes of a survey when a name is declared. -/
theorem take_declare (scope : ScopeId) (name : String) (kind : DeclKind) (mark : Mark)
    (position : Nat) :
    survey.take (.declare scope name kind mark position) =
      if (survey.symbols.declaredIn? scope name).isSome then
        ⟨survey.symbols, survey.errors.push ⟨.duplicate name, mark.span⟩⟩
      else ⟨survey.symbols.extend ⟨name, kind, some mark.id, scope, position, mark.span⟩,
        survey.errors⟩ := by
  simp only [Survey.take, SymbolTable.declare]
  split
  · rename_i declared
    split at declared
    · cases declared
    · rename_i vacant
      cases declared
      rw [if_neg vacant]
      rfl
  · rename_i refused
    split at refused
    · rename_i taken
      cases refused
      rw [if_pos taken]
    · cases refused

theorem recasts_declare (tells : r.Tells mirror move extra whole)
    (recasts : left.Recasts r mirror move extra whole goes right) {scope : ScopeId} {name : String}
    {kind : DeclKind} {mark : Mark} (positive : 0 < scope)
    (isOpen : scope < left.symbols.scopes.size)
    (walked : .declare scope name kind mark (kind.visibleFrom mark.span) ∈ whole)
    (marks : mirror.Marks mark (r.mark mark)) :
    ∃ further, (left.take (.declare scope name kind mark (kind.visibleFrom mark.span))).Recasts r
      mirror move extra whole further (right.take (.declare (move scope)
        (r.called kind mark.id name) kind (r.mark mark)
        (kind.visibleFrom (r.span mark.span)))) := by
  have declared : (⟨name, kind, some mark.id, scope, kind.visibleFrom mark.span, mark.span⟩ :
      Declaration) ∈ Step.declared scope whole := Step.mem_declared.mpr ⟨_, _, _, _, walked, rfl⟩
  have present := Array.getElem?_eq_getElem isOpen
  have fresh : ¬ Step.Strange extra (move scope) (r.called kind mark.id name) :=
    tells.apart declared
  have agree : ∀ decl ∈ Step.contents scope whole,
      ((r.declaration move decl).name = r.called kind mark.id name ↔ decl.name = name) := by
    intro decl member
    rcases Step.mem_contents_cases member with ⟨rfl, _⟩ | other
    · exact absurd positive (Nat.lt_irrefl _)
    · exact tells.distinct other declared
  have looked := recasts.symbols.declaredIn present agree fresh
  rw [take_declare, take_declare]
  generalize left.symbols.declaredIn? scope name = taken at looked
  generalize right.symbols.declaredIn? (move scope) (r.called kind mark.id name) = found at looked
  cases looked with
  | some _ =>
    refine ⟨goes, recasts.symbols, ?_⟩
    simp only [Option.isSome_some, if_true, Array.toList_push]
    refine recasts.errors.append (.single ?_)
    rcases tells.named with lenient | kept
    · exact .inl lenient
    · refine .inr ⟨?_, marks.spans⟩
      cases kind <;> simp only [Recast.called, kept]
  | none => exact ⟨_, recasts.symbols.extend tells declared, recasts.errors⟩

/-- Steps that mirror one another make of surveys that go with each other such surveys. -/
theorem recasts_take (tells : r.Tells mirror move extra whole)
    (recasts : left.Recasts r mirror move extra whole goes right) {step image : Step}
    (mirrors : Step.Mirrors mirror r nodes move step image) (walked : step ∈ whole)
    (ordered : Step.Ordered left.symbols.scopes.size [step])
    (orderedToo : Step.Ordered right.symbols.scopes.size [image]) :
    ∃ further, (left.take step).Recasts r mirror move extra whole further (right.take image) := by
  cases mirrors with
  | openScope =>
    obtain ⟨rfl, _⟩ := ordered
    exact ⟨goes, recasts.symbols.openScope orderedToo.1.symm, recasts.errors⟩
  | declare marks => exact recasts_declare tells recasts ordered.1 ordered.2.1 walked marks
  | setMembers => exact ⟨goes, recasts.symbols.setMembers _ _, recasts.errors⟩
  | typeExpr | expr | rule | returns => exact ⟨goes, recasts⟩

/-- Another step of the second walk leaves surveys that go with each other. -/
theorem recasts_takeRight (recasts : left.Recasts r mirror move extra whole goes right)
    {step : Step} (added : extra step) :
    left.Recasts r mirror move extra whole goes (right.take step) := by
  cases step with
  | openScope scope kind parent => exact ⟨recasts.symbols.pushRight _ _, recasts.errors⟩
  | declare scope name kind mark position =>
    rw [take_declare]
    split
    · refine ⟨recasts.symbols, ?_⟩
      rw [Array.toList_push, ← List.append_nil left.errors.toList]
      exact recasts.errors.append (.skip ⟨_, _, _, _, _, added, rfl⟩ .nil)
    · exact ⟨recasts.symbols.extendRight added, recasts.errors⟩
  | setMembers owner scope => exact ⟨recasts.symbols.setMembersRight added, recasts.errors⟩
  | typeExpr | expr | rule | returns => exact recasts

theorem recasts_foldl (tells : r.Tells mirror move extra whole) {steps images : List Step}
    (alike : Matched (Step.Mirrors mirror r nodes move) extra steps images)
    (recasts : left.Recasts r mirror move extra whole goes right) (walked : steps ⊆ whole)
    (ordered : Step.Ordered left.symbols.scopes.size steps)
    (orderedToo : Step.Ordered right.symbols.scopes.size images) :
    ∃ further, (steps.foldl take left).Recasts r mirror move extra whole further
      (images.foldl take right) := by
  induction alike generalizing left right goes with
  | nil => exact ⟨goes, recasts⟩
  | @cons step image steps images first _ ih =>
    have whole : Step.Ordered _ ([step] ++ steps) := ordered
    have wholeToo : Step.Ordered _ ([image] ++ images) := orderedToo
    have here := Step.ordered_append.mp whole
    have there := Step.ordered_append.mp wholeToo
    rw [← size_take] at here there
    obtain ⟨further, next⟩ :=
      recasts_take tells recasts first (walked List.mem_cons_self) here.1 there.1
    exact ih next (fun step member => walked (List.mem_cons_of_mem _ member)) here.2 there.2
  | @skip image steps images added _ ih =>
    have wholeToo : Step.Ordered _ ([image] ++ images) := orderedToo
    have there := Step.ordered_append.mp wholeToo
    rw [← size_take] at there
    exact ih (recasts_takeRight recasts added) walked ordered there.2

end Survey

/-! ## Lookups -/

namespace SymbolTable

/-- Only scopes of the table are around a scope. -/
theorem present_of_mem_chainFrom {symbols : SymbolTable} {fuel : Nat} {scope outer : ScopeId}
    (member : outer ∈ symbols.chainFrom fuel scope) :
    ∃ found, symbols.scopes[outer]? = some found := by
  induction fuel generalizing scope with
  | zero => cases member
  | succ fuel ih =>
    simp only [chainFrom] at member
    split at member
    · cases member
    · rename_i found present
      rcases List.mem_cons.mp member with rfl | further
      · exact ⟨found, present⟩
      · split at further
        · cases further
        · exact ih further

/-- Around a scope that is not in the table there are none. -/
theorem present_of_mem_chain {symbols : SymbolTable} {scope outer : ScopeId}
    (member : outer ∈ symbols.chain scope) : ∃ found, symbols.scopes[scope]? = some found := by
  rw [chain] at member
  cases present : symbols.scopes[scope]? with
  | some found => exact ⟨found, rfl⟩
  | none => cases size : symbols.scopes.size <;> simp [size, chainFrom, present] at member

variable {r : Recast} {mirror : Mirror} {move : ScopeId → ScopeId} {extra : Step → Prop}
  {nodes : List Node} {whole images : List Step} {goes : DeclId → DeclId → Prop}
  {left right : SymbolTable}

/-- The scopes around a counterpart are the counterparts of the scopes around. -/
theorem chain_recast {next later : ScopeId} (reflects : left.Reflects whole)
    (reflectsToo : right.Reflects images) (ordered : Step.Ordered next whole)
    (orderedToo : Step.Ordered later images) (outermost : move builtinScope = builtinScope)
    (opened : ∀ scope kind parent, .openScope scope kind parent ∈ whole →
      .openScope (move scope) kind (move parent) ∈ images)
    {scope : ScopeId} {found : Scope} (present : left.scopes[scope]? = some found) :
    right.chain (move scope) = (left.chain scope).map move := by
  induction scope using Nat.strongRecOn generalizing found with
  | ind scope ih =>
    rcases reflects.scopes present with ⟨rfl, _⟩ | ⟨parent, _, member⟩
    · rw [outermost, reflects.chain_builtin, reflectsToo.chain_builtin, List.map_singleton,
        outermost]
    · have inside := (ordered.of_openScope member).1
      have bound : scope < left.scopes.size := (Array.getElem?_eq_some_iff.mp present).1
      have outer := Array.getElem?_eq_getElem (Nat.lt_trans inside bound)
      rw [reflects.chain_openScope ordered member,
        reflectsToo.chain_openScope orderedToo (opened _ _ _ member), ih parent inside outer,
        List.map_cons]

/-- A name that is declared in a scope and visible there, and hidden in the scopes inside. -/
theorem lookupAlong_of_hidden {symbols : SymbolTable} {name : String} {position : Nat}
    {passed : Bool} {before after : List ScopeId} {scope : ScopeId} {id : DeclId}
    (declared : symbols.declaredIn? scope name = some id)
    (visible : symbols.isVisible scope id position = true)
    (hidden : ∀ inner ∈ before, ∀ other, symbols.declaredIn? inner name = some other →
      symbols.isVisible inner other position = false) :
    symbols.lookupAlong name position passed (before ++ scope :: after) = .ok id := by
  induction before generalizing passed with
  | nil => simp only [List.nil_append, lookupAlong, declared, visible, if_true]
  | cons inner rest ih =>
    have further := fun passed => @ih passed fun inner member => hidden inner
      (List.mem_cons_of_mem _ member)
    rw [List.cons_append, lookupAlong]
    split
    · exact further _
    · rename_i other here
      rw [hidden inner List.mem_cons_self other here]
      exact further _

theorem looks_along {name called : String} {position place : Nat} {passed : Bool}
    {scopes : List ScopeId} (same : mirror.lenient ∨ called = name)
    (declared : ∀ scope ∈ scopes, Option.Rel mirror.decls (left.declaredIn? scope name)
      (right.declaredIn? (move scope) called))
    (visible : ∀ scope ∈ scopes, ∀ id image, mirror.decls id image →
      right.isVisible (move scope) image place = left.isVisible scope id position) :
    mirror.Looks (left.lookupAlong name position passed scopes)
      (right.lookupAlong called place passed (scopes.map move)) := by
  induction scopes generalizing passed with
  | nil =>
    have causes : ∀ cause : String → SemanticError.Cause,
        mirror.Looks (.error (cause name)) (.error (cause called)) := by
      intro cause
      exact .failed (same.imp_right fun same => by rw [same])
    cases passed
    · exact causes fun name => .unresolved (.symbol name)
    · exact causes .usedBeforeDeclaration
  | cons scope outer ih =>
    have rest := fun passed => @ih passed
      (fun scope member => declared scope (List.mem_cons_of_mem _ member))
      (fun scope member => visible scope (List.mem_cons_of_mem _ member))
    have here := declared scope List.mem_cons_self
    have seen := visible scope List.mem_cons_self
    rw [List.map_cons, lookupAlong, lookupAlong]
    generalize left.declaredIn? scope name = found at here
    generalize right.declaredIn? (move scope) called = image at here
    cases here with
    | none => exact rest passed
    | some goes =>
      dsimp only
      rw [seen _ _ goes]
      split
      · exact .found goes
      · exact rest true

end SymbolTable

/-! ## Tables of two walks -/

/-- What is taken for granted of the nodes whose structs and boxes may come up: what the tree
declares is among them, their members keep their names, and the other steps leave them alone. -/
structure Recast.Owns (r : Recast) (mirror : Mirror) (move : ScopeId → ScopeId)
    (extra : Step → Prop) (whole : List Step) : Prop where
  owned : ∀ {node : NodeId}, mirror.reads ⟨node, .declType⟩ ⟨node, .declType⟩ → mirror.owners node
  silent : ∀ {owner : NodeId}, mirror.owners owner → ∀ scope, ¬ extra (.setMembers owner scope)
  closed : ∀ {owner : NodeId} {scope : ScopeId}, .setMembers owner scope ∈ whole →
    ∀ name, ¬ Step.Strange extra (move scope) name
  kept : ∀ {owner : NodeId} {scope : ScopeId}, .setMembers owner scope ∈ whole →
    ∀ decl ∈ Step.declared scope whole, (r.declaration move decl).name = decl.name

namespace Walk

variable {body : List Stmt} {scope : ScopeId}

/-- The walk declares names in scopes that it opens. -/
theorem lt_of_declared {decl : Declaration} (member : decl ∈ Step.declared scope (program body)) :
    scope < 1 + Step.opened (program body) := by
  refine Nat.lt_of_not_le fun closed => ?_
  rw [(ordered_program body).declared_eq_nil closed] at member
  cases member

theorem lt_of_opened {parent : ScopeId} {kind : ScopeKind}
    (member : .openScope scope kind parent ∈ program body) :
    scope < 1 + Step.opened (program body) := by
  have ordered := ordered_program body
  obtain ⟨before, after, split⟩ := List.append_of_mem member
  rw [split] at ordered ⊢
  obtain ⟨rfl, _⟩ := (Step.ordered_append.mp ordered).2
  rw [Step.opened_append, Step.opened_openScope_cons]
  exact Nat.add_lt_add_left (Nat.lt_add_of_pos_right
    (Nat.lt_of_lt_of_le Nat.zero_lt_one (Nat.le_add_right _ _))) 1

/-- A scope is opened once. -/
theorem kind_unique {parent around : ScopeId} {kind other : ScopeKind}
    (here : .openScope scope kind parent ∈ program body)
    (there : .openScope scope other around ∈ program body) : kind = other := by
  obtain ⟨kept, thinned, _, reflects⟩ := reflects_thinned_survey body
  obtain ⟨names, order, present⟩ := reflects.opened (thinned.others _ here rfl)
  obtain ⟨others, orderToo, presentToo⟩ := reflects.opened (thinned.others _ there rfl)
  rw [present] at presentToo
  cases presentToo
  rfl

end Walk

theorem size_survey (body : List Stmt) : (survey (Walk.program body)).symbols.scopes.size =
    1 + Step.opened (Walk.program body) :=
  Survey.size_foldl _

/-- A scope with declarations is in the table. -/
theorem present_of_declared {body : List Stmt} {scope : ScopeId} {decl : Declaration}
    (member : decl ∈ Step.declared scope (Walk.program body)) :
    ∃ found, (survey (Walk.program body)).symbols.scopes[scope]? = some found := by
  have bound := Walk.lt_of_declared member
  rw [← size_survey] at bound
  exact ⟨_, Array.getElem?_eq_getElem bound⟩

/-- The member scope of a struct or box is one that the walk opens for it. -/
theorem Walk.opened_of_setMembers {body : List Stmt} {owner : NodeId} {scope : ScopeId}
    (member : .setMembers owner scope ∈ program body) :
    ∃ kind parent, .openScope scope kind parent ∈ program body ∧ kind.isSequential = false := by
  cases sited_program body _ member with
  | members opened unordered => exact ⟨_, _, opened, unordered⟩
  | typeExpr _ inside => cases plain_typeExpr _ _ _ inside
  | expr _ inside => cases plain_expr _ _ _ _ inside

theorem present_of_lookup_memberScopes {body : List Stmt} {owner : NodeId} {scope : ScopeId}
    (found : (survey (Walk.program body)).symbols.memberScopes.lookup owner = some scope) :
    .setMembers owner scope ∈ Walk.program body ∧
      ∃ home, (survey (Walk.program body)).symbols.scopes[scope]? = some home := by
  obtain ⟨kept, thinned, _, reflects⟩ := reflects_thinned_survey body
  have member := thinned.subset (reflects.lookup_memberScopes found)
  refine ⟨member, ?_⟩
  obtain ⟨kind, parent, opened, _⟩ := Walk.opened_of_setMembers member
  obtain ⟨names, order, present⟩ := reflects.opened (thinned.others _ opened rfl)
  exact ⟨_, present⟩

/-- A scope lists what its names declare. -/
theorem ordered_survey {body : List Stmt} {scope : ScopeId} {found : Scope}
    (present : (survey (Walk.program body)).symbols.scopes[scope]? = some found) :
    found.order = found.names.map Prod.snd := by
  obtain ⟨kept, _, _, reflects⟩ := reflects_thinned_survey body
  exact reflects.ordered present

section Programs

variable {r : Recast} {mirror : Mirror} {move : ScopeId → ScopeId} {extra : Step → Prop}
  {nodes : List Node} {body image : List Stmt}

/-- The two surveys go with each other. -/
theorem recasts_survey (tells : r.Tells mirror move extra (Walk.program body))
    (alike : Matched (Step.Mirrors mirror r nodes move) extra (Walk.program body)
      (Walk.program image)) :
    ∃ goes, (survey (Walk.program body)).Recasts r mirror move extra (Walk.program body) goes
      (survey (Walk.program image)) :=
  Survey.recasts_foldl tells alike
    ⟨SymbolTable.recasts_initial tells.outermost, .nil⟩ (List.Subset.refl _)
    (Walk.ordered_program body) (Walk.ordered_program image)

variable (alike : Matched (Step.Mirrors mirror r nodes move) extra (Walk.program body)
  (Walk.program image))

include alike

theorem chain_survey (outermost : move SymbolTable.builtinScope = SymbolTable.builtinScope)
    {scope : ScopeId} {found : Scope}
    (present : (survey (Walk.program body)).symbols.scopes[scope]? = some found) :
    (survey (Walk.program image)).symbols.chain (move scope) =
      ((survey (Walk.program body)).symbols.chain scope).map move := by
  obtain ⟨kept, thinned, ordered, reflects⟩ := reflects_thinned_survey body
  obtain ⟨keptToo, thinnedToo, orderedToo, reflectsToo⟩ := reflects_thinned_survey image
  refine SymbolTable.chain_recast reflects reflectsToo ordered orderedToo outermost ?_ present
  intro scope kind parent member
  obtain ⟨other, found, mirrors⟩ := alike.mem_left (thinned.subset member)
  cases mirrors
  exact thinnedToo.others _ found rfl

/-- A declaration of the tree means the same when the tree is cast anew. -/
theorem alike_declaration (owns : r.Owns mirror move extra (Walk.program body))
    {scope : ScopeId} {decl : Declaration}
    (member : decl ∈ Step.contents scope (Walk.program body)) :
    mirror.Alike decl (r.declaration move decl) := by
  have builtinOr : (decl ∈ SymbolTable.builtinDeclarations) ∨
      (∀ ty, decl.kind ≠ .builtinType ty) ∧ ∃ node, decl.node = some node ∧
        mirror.reads ⟨node, .declType⟩ ⟨node, .declType⟩ := by
    rcases Step.mem_contents_cases member with ⟨_, builtin⟩ | declares
    · exact .inl builtin
    · obtain ⟨name, kind, mark, position, walked, rfl⟩ := Step.mem_declared.mp declares
      obtain ⟨other, _, mirrors⟩ := alike.mem_left walked
      cases mirrors with
      | declare _ typed noBuiltin => exact .inr ⟨noBuiltin, mark.id, rfl, typed⟩
  constructor
  · exact Recast.kind_declaration r move decl
  · exact Recast.node_declaration r move decl
  · exact Recast.namedType_declaration r move decl
  · intro ty kind
    rcases builtinOr with builtin | ⟨noBuiltin, _⟩
    · obtain ⟨⟨name, builtinKind⟩, entry, rfl⟩ := List.mem_map.mp builtin
      simp only [SymbolTable.builtins, List.mem_cons, Prod.mk.injEq, List.not_mem_nil,
        or_false] at entry kind
      rcases entry with ⟨_, rfl⟩ | ⟨_, rfl⟩ | ⟨_, rfl⟩ | ⟨_, rfl⟩ | ⟨_, rfl⟩ | ⟨_, rfl⟩ | ⟨_, rfl⟩
      all_goals first | cases kind; trivial | cases kind
    · exact absurd kind (noBuiltin ty)
  · intro ty named
    rcases builtinOr with builtin | ⟨_, node, is, reads⟩
    · obtain ⟨⟨name, builtinKind⟩, _, rfl⟩ := List.mem_map.mp builtin
      cases builtinKind <;> cases named
    · have owned := owns.owned reads
      unfold Declaration.namedType? at named
      rw [is] at named
      split at named
      · rename_i equal
        cases equal
        cases named
        exact owned
      · rename_i equal
        cases equal
        cases named
        exact owned
      · cases named
  · intro node is
    rcases builtinOr with builtin | ⟨_, other, same, reads⟩
    · obtain ⟨_, _, rfl⟩ := List.mem_map.mp builtin
      cases is
    · rw [is] at same
      cases same
      exact reads

omit alike in
/-- The declarations that entries mean, where no others stand in between. -/
theorem forall₂_filterMap {whole : List Step} {goes : DeclId → DeclId → Prop}
    {left right : SymbolTable} (recasts : left.Recasts r move extra whole goes right)
    {R : Declaration → Declaration → Prop}
    (related : ∀ decl ∈ Step.contents decl.scope whole, R decl (r.declaration move decl))
    {held : List Declaration} {scope : ScopeId} {entries images : List (String × DeclId)}
    (matched : Matched (SymbolTable.EntriesRecast r move goes held)
      (fun entry => Step.Strange extra scope entry.1) entries images)
    (closed : ∀ name, ¬ Step.Strange extra scope name) :
    List.Forall₂ R ((entries.map Prod.snd).filterMap fun id => left.decls[id]?)
      ((images.map Prod.snd).filterMap fun id => right.decls[id]?) := by
  induction matched with
  | nil => exact .nil
  | cons first _ ih =>
    obtain ⟨decl, member, present, found⟩ := recasts.decls first.1
    simp only [List.map_cons, List.filterMap_cons, present, found]
    exact .cons (related decl member) ih
  | skip strange _ _ => exact absurd strange (closed _)

/-- The tables of the two walks agree on what the typing rules meet. -/
theorem faithful_survey (left : mirror.left = (survey (Walk.program body)).symbols)
    (right : mirror.right = (survey (Walk.program image)).symbols)
    (owns : r.Owns mirror move extra (Walk.program body))
    (recasts : mirror.left.Recasts r move extra (Walk.program body) mirror.decls mirror.right) :
    mirror.Faithful := by
  have lookup : ∀ {owner : NodeId}, mirror.owners owner →
      mirror.right.memberScopes.lookup owner = (mirror.left.memberScopes.lookup owner).map move :=
    fun owned => recasts.members (owns.silent owned)
  constructor
  · intro id other goes
    obtain ⟨decl, member, present, found⟩ := recasts.decls goes
    exact ⟨decl, _, present, found, alike_declaration alike owns member⟩
  · intro owner owned
    unfold SymbolTable.members
    rw [lookup owned]
    cases members : mirror.left.memberScopes.lookup owner with
    | none => exact .nil
    | some scope =>
      rw [left] at members
      obtain ⟨walked, home, present⟩ := present_of_lookup_memberScopes members
      rw [← left] at present
      obtain ⟨other, found, _, matched⟩ := recasts.scopes present
      simp only [Option.map_some, Option.bind_some, present, found]
      rw [ordered_survey (left ▸ present), ordered_survey (right ▸ found)]
      exact forall₂_filterMap recasts (fun decl member => alike_declaration alike owns member)
        matched (owns.closed walked)
  · intro owner owned name
    unfold SymbolTable.lookupMember?
    rw [lookup owned]
    cases members : mirror.left.memberScopes.lookup owner with
    | none => exact .none
    | some scope =>
      rw [left] at members
      obtain ⟨walked, home, present⟩ := present_of_lookup_memberScopes members
      rw [← left] at present
      simp only [Option.map_some, Option.bind_some]
      refine recasts.declaredIn present (fun decl member => ?_) (owns.closed walked name)
      have same : (r.declaration move decl).name = decl.name := by
        rcases Step.mem_contents_cases member with ⟨_, builtin⟩ | declares
        · obtain ⟨_, _, rfl⟩ := List.mem_map.mp builtin
          rfl
        · exact owns.kept walked decl declares
      rw [same]

/-- A declaration is visible where it was, if that is so of variables. -/
theorem order_declaration {scope : ScopeId} {position place : Nat}
    (order : ∀ decl ∈ Step.declared scope (Walk.program body), decl.kind = .var →
      ((r.span decl.span).stop.offset ≤ place ↔ decl.span.stop.offset ≤ position))
    {decl : Declaration} (member : decl ∈ Step.contents scope (Walk.program body)) :
    (r.declaration move decl).visibleFrom ≤ place ↔ decl.visibleFrom ≤ position := by
  rcases Step.mem_contents_cases member with ⟨_, builtin⟩ | declares
  · obtain ⟨_, _, rfl⟩ := List.mem_map.mp builtin
    exact iff_of_true (Nat.zero_le _) (Nat.zero_le _)
  · have known := order decl declares
    obtain ⟨name, kind, mark, position, walked, rfl⟩ := Step.mem_declared.mp declares
    obtain ⟨other, _, mirrors⟩ := alike.mem_left walked
    cases mirrors
    cases kind with
    | var => exact known rfl
    | _ => exact iff_of_true (Nat.zero_le _) (Nat.zero_le _)

/-- A name that is told apart from all others alike means the same in the tables of the two
walks. -/
theorem looks_survey (left : mirror.left = (survey (Walk.program body)).symbols)
    (right : mirror.right = (survey (Walk.program image)).symbols)
    (recasts : mirror.left.Recasts r move extra (Walk.program body) mirror.decls mirror.right)
    (outermost : move SymbolTable.builtinScope = SymbolTable.builtinScope)
    {scope : ScopeId} {found : Scope} (present : mirror.left.scopes[scope]? = some found)
    {name called : String} {position place : Nat} (same : mirror.lenient ∨ called = name)
    (agree : ∀ home, ∀ decl ∈ Step.contents home (Walk.program body),
      ((r.declaration move decl).name = called ↔ decl.name = name))
    (apart : ∀ home there, mirror.left.scopes[home]? = some there →
      ¬ Step.Strange extra (move home) called)
    (order : ∀ home, ∀ decl ∈ Step.declared home (Walk.program body), decl.kind = .var →
      ((r.span decl.span).stop.offset ≤ place ↔ decl.span.stop.offset ≤ position)) :
    mirror.Looks (mirror.left.lookup scope name position)
      (mirror.right.lookup (move scope) called place) := by
  have chain : mirror.right.chain (move scope) = (mirror.left.chain scope).map move := by
    rw [left] at present ⊢
    rw [right]
    exact chain_survey alike outermost present
  rw [SymbolTable.lookup, SymbolTable.lookup, chain]
  refine SymbolTable.looks_along same (fun home member => ?_) fun home member id image goes => ?_
  · obtain ⟨there, presentToo⟩ := SymbolTable.present_of_mem_chainFrom member
    exact recasts.declaredIn presentToo (agree home) (apart home there presentToo)
  · obtain ⟨there, presentToo⟩ := SymbolTable.present_of_mem_chainFrom member
    exact recasts.isVisible presentToo goes fun decl member =>
      order_declaration alike (order _) member

end Programs

end BoxScript
