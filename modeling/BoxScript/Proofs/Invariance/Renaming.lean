import BoxScript.Proofs.Recasting.Analysis
import BoxScript.Proofs.Recasting.Running
import BoxScript.Proofs.Typing.Completeness
import Mathlib.Logic.Equiv.Basic

/-!
# Renaming a variable

A variable or parameter of an accepted program can be called by any identifier that occurs nowhere
in the program, in its declaration and in all symbols that mean it. The program that results is
accepted with the same types, and runs alike (`Program.renamed_alike`).

Each name still means what it meant. The scope of the declaration has the new name where it had the
old one, so a symbol that means the variable finds it there, and finds no other declaration on the
way. Other names are looked up as before, except that the variable is no longer in their way; and it
only ever was in the way of a name that means something else where it was passed over
(`Program.looks_exchanging`).

In the proofs the new name is exchanged for the old one, so that names are told apart at each node
(`Program.exchanging`). Since the nodes in question have the old name, and none has the new one,
this comes to the same tree (`Program.recast_callingAnew`).
-/

set_option autoImplicit false
set_option maxRecDepth 100000

namespace BoxScript

/-- The identifiers that a node writes itself. -/
def Node.names : Node → List String
  | .type (.named _ called) => [called]
  | .expr (.symbol _ called) | .expr (.constructor _ called) | .expr (.create _ called)
  | .expr (.field _ _ called) | .expr (.member _ _ called) => [called]
  | .name typed => [typed.name]
  | .stmt s => s.declaredName?.toList
  | .method decl => [decl.name]
  | _ => []

theorem Node.mem_names_of_refers {node : Node} {name : String} (refers : node.refers? = some name) :
    name ∈ node.names := by
  unfold Node.refers? at refers
  split at refers <;> cases refers <;> exact List.mem_singleton.mpr rfl

theorem Node.mem_names_of_declares {node : Node} {name : String}
    (declares : node.declares? = some name) : name ∈ node.names := by
  cases node with
  | name typed | method decl =>
    cases declares
    exact List.mem_singleton.mpr rfl
  | stmt s =>
    change s.declaredName? = some name at declares
    simp [Node.names, declares]
  | _ => cases declares

/-- What names a type is no variable. -/
theorem Declaration.isVariable_of_denoted {decl : Declaration} {ty : Ty}
    (denotes : decl.denoted? = some ty) : decl.kind.isVariable = false := by
  unfold Declaration.denoted? Declaration.namedType? at denotes
  cases kind : decl.kind <;> first | rfl | simp [kind] at denotes

theorem Declaration.isVariable_of_namedType {decl : Declaration} {ty : Ty}
    (names : decl.namedType? = some ty) : decl.kind.isVariable = false := by
  unfold Declaration.namedType? at names
  cases kind : decl.kind <;> first | rfl | simp [kind] at names

/-- The variables and parameters that a node declares, with their names. -/
def Node.declaredVariables : Node → List (Mark × String)
  | .stmt (.var decl) => [(decl.mark, decl.name)]
  | .stmt (.function decl) | .method decl => decl.parameters.map fun name => (name.mark, name.name)
  | _ => []

namespace Program

/-- The identifiers that a program has. -/
def names (program : Program) : List String := (Stmt.nodesOfAll program.body).flatMap Node.names

/-- The variables and parameters that a program declares, with their names. -/
def declaredVariables (program : Program) : List (Mark × String) :=
  (Stmt.nodesOfAll program.body).flatMap Node.declaredVariables

/-- The walk over a program declares its variables and parameters. -/
theorem declare_of_declaredVariables {program : Program} {mark : Mark} {name : String}
    (declared : (mark, name) ∈ program.declaredVariables) : ∃ scope kind position,
      .declare scope name kind mark position ∈ program.steps ∧ kind.isVariable = true := by
  obtain ⟨node, inside, declares⟩ := List.mem_flatMap.mp declared
  have walked := Walk.covers_program program.body node inside
  have ofParameters : ∀ {decl : FunctionDecl}, decl.Walked program.steps →
      (mark, name) ∈ decl.parameters.map (fun name => (name.mark, name.name)) →
      ∃ scope kind position,
        .declare scope name kind mark position ∈ program.steps ∧ kind.isVariable = true := by
    intro decl walked member
    obtain ⟨parameter, own, same⟩ := List.mem_map.mp member
    cases same
    obtain ⟨scope, declares⟩ := walked.2 parameter own
    exact ⟨scope, .param, 0, declares, rfl⟩
  cases node with
  | stmt s =>
    cases s with
    | var decl =>
      obtain ⟨_, ⟨scope, step⟩, _⟩ := walked
      cases List.mem_singleton.mp declares
      exact ⟨scope, .var, _, step, rfl⟩
    | function decl => exact ofParameters walked.2 declares
    | _ => cases declares
  | method decl => exact ofParameters walked declares
  | _ => cases declares

/-- Whether a node is a declaration, or a symbol that means it. -/
def calls (program : Program) (notes : Annotations) (declaration id : NodeId) : Bool :=
  id == declaration || (Stmt.nodesOfAll program.body).any fun
    | .expr (.symbol mark _) =>
      mark.id == id && (notes.declOf? id).any (·.node == some declaration)
    | _ => false

/-- A variable or parameter is called anew, where it is declared and where it is meant. -/
def callingAnew (program : Program) (notes : Annotations) (declaration : NodeId) (fresh : String) :
    Recast :=
  { Recast.none with
    name := fun id name => if program.calls notes declaration id then fresh else name }

/-- The new name of a variable or parameter is exchanged for its old one. -/
def exchanging (program : Program) (notes : Annotations) (declaration : NodeId)
    (old fresh : String) : Recast :=
  { Recast.none with
    name := fun id name =>
      if program.calls notes declaration id then Equiv.swap old fresh name else name }

theorem calls_iff {program : Program} {notes : Annotations} {declaration id : NodeId} :
    program.calls notes declaration id = true ↔ id = declaration ∨
      ∃ mark name, .expr (.symbol mark name) ∈ Stmt.nodesOfAll program.body ∧ mark.id = id ∧
        ∃ decl, notes.declOf? id = some decl ∧ decl.node = some declaration := by
  rw [calls, Bool.or_eq_true, beq_iff_eq, List.any_eq_true]
  refine or_congr_right ⟨?_, ?_⟩
  · rintro ⟨node, inside, means⟩
    split at means
    · rename_i mark name
      rw [Bool.and_eq_true, beq_iff_eq, Option.any_eq_true] at means
      obtain ⟨same, decl, found, is⟩ := means
      exact ⟨mark, name, inside, same, decl, found, eq_of_beq is⟩
    · cases means
  · rintro ⟨mark, name, inside, same, decl, found, is⟩
    refine ⟨_, inside, ?_⟩
    simp [same, found, is]

section Exchange

variable {program : Program} {notes : Annotations} {home : ScopeId} {old fresh : String}
  {kind : DeclKind} {mark : Mark} {position : Nat}

theorem exchanging_unwrapped :
    (program.exchanging notes mark.id old fresh).Unwrapped :=
  ⟨fun _ => rfl, fun _ => rfl⟩

theorem exchanging_injective : (program.exchanging notes mark.id old fresh).Injective := by
  intro id name other same
  simp only [exchanging] at same
  split at same
  · exact (Equiv.swap old fresh).injective same
  · exact same

variable (nodup : (Stmt.idsOfAll program.body).Nodup)
  (declared : .declare home old kind mark position ∈ program.steps)

/-! ## Who is called anew -/

section Called

include nodup

/-- Of the nodes that declare something, only the variable is called anew. -/
theorem calls_declared {scope : ScopeId} {name : String} {other : DeclKind} {place : Mark}
    {later : Nat} (walked : .declare scope name other place later ∈ program.steps) :
    program.calls notes mark.id place.id = true ↔ place.id = mark.id := by
  rw [calls_iff]
  refine or_iff_left ?_
  rintro ⟨spot, called, inside, same, _⟩
  obtain ⟨node, own, is, declares⟩ := node_of_declare walked
  have equal : node = .expr (.symbol spot called) := by
    refine eq_of_id nodup own inside ?_
    rw [Node.id_eq, is]
    exact same.symm
  rw [equal] at declares
  cases declares

include declared

/-- A symbol is called anew if it means the variable. -/
theorem calls_symbol {scope : ScopeId} {expectation : Expectation} {place : Mark} {name : String}
    {decl : Declaration} (walked : .expr scope expectation (.symbol place name) ∈ program.steps)
    (means : notes.declOf? place.id = some decl) :
    program.calls notes mark.id place.id = true ↔ decl.node = some mark.id := by
  have inside := node_of_expr walked
  have apart : place.id ≠ mark.id := by
    intro same
    obtain ⟨node, own, is, declares⟩ := node_of_declare declared
    have equal : node = .expr (.symbol place name) := by
      refine eq_of_id nodup own inside ?_
      rw [Node.id_eq, is]
      exact same.symm
    rw [equal] at declares
    cases declares
  rw [calls_iff, or_iff_right apart]
  constructor
  · rintro ⟨_, _, _, _, other, found, is⟩
    rw [means] at found
    cases found
    exact is
  · exact fun is => ⟨place, name, inside, rfl, decl, means, is⟩

/-- The declaration of the variable. -/
theorem eq_of_declared {scope : ScopeId} {decl : Declaration}
    (member : decl ∈ Step.contents scope program.steps) (is : decl.node = some mark.id) :
    decl = ⟨old, kind, some mark.id, home, position, mark.span⟩ := by
  have own : (⟨old, kind, some mark.id, home, position, mark.span⟩ : Declaration) ∈
      Step.contents home program.steps :=
    List.mem_append_right _ (Step.mem_declared.mpr ⟨_, _, _, _, declared, rfl⟩)
  have isSome : decl.node.isSome = true := by rw [is]; rfl
  exact SymbolTable.Reflects.eq_of_node (Walk.distinct_program nodup) member own isSome is

end Called

/-! ## Names in the end -/

variable (analyzed : analyze program = .ok notes) (isVariable : kind.isVariable = true)
  (unused : ∀ node ∈ Stmt.nodesOfAll program.body, fresh ∉ node.names)

include nodup declared isVariable

/-- What declarations are called in the end. -/
theorem name_exchanging {scope : ScopeId} {decl : Declaration}
    (member : decl ∈ Step.contents scope program.steps) :
    ((program.exchanging notes mark.id old fresh).declaration id decl).name =
      if decl.node = some mark.id then fresh else decl.name := by
  rcases Step.mem_contents_cases member with ⟨_, builtin⟩ | declares
  · obtain ⟨_, _, rfl⟩ := List.mem_map.mp builtin
    rfl
  · obtain ⟨name, other, place, later, walked, is⟩ := Step.mem_declared.mp declares
    by_cases own : decl.node = some mark.id
    · rw [if_pos own, eq_of_declared nodup declared member own]
      have called : program.calls notes mark.id mark.id = true := calls_iff.mpr (.inl rfl)
      cases kind with
      | var | param =>
        simp only [Recast.declaration, Recast.called, exchanging, called, if_true,
          Equiv.swap_apply_left]
      | _ => cases isVariable
    · rw [if_neg own, is]
      rw [is] at own
      have quiet : program.calls notes mark.id place.id = false := by
        rw [Bool.eq_false_iff, Ne, calls_declared nodup walked]
        exact fun same => own (congrArg some same)
      cases other <;> simp [Recast.declaration, Recast.called, exchanging, quiet]

include unused

omit nodup declared isVariable in
/-- Nothing that the program declares has the new name. -/
theorem ne_fresh {scope : ScopeId} {decl : Declaration}
    (member : decl ∈ Step.declared scope program.steps) : decl.name ≠ fresh := by
  rintro rfl
  obtain ⟨name, other, place, later, walked, rfl⟩ := Step.mem_declared.mp member
  obtain ⟨node, inside, _, declares⟩ := node_of_declare walked
  exact unused node inside (Node.mem_names_of_declares declares)

include analyzed

/-- The declarations of a scope are told apart in the end as they were before. -/
theorem agree_exchanging {scope : ScopeId} {decl other : Declaration}
    (member : decl ∈ Step.contents scope program.steps)
    (memberToo : other ∈ Step.contents scope program.steps) :
    ((program.exchanging notes mark.id old fresh).declaration id decl).name =
      ((program.exchanging notes mark.id old fresh).declaration id other).name ↔
      decl.name = other.name := by
  have reflects := reflects_of_analyze nodup analyzed
  -- Beside the variable, the scope has nothing of either name.
  have alone : ∀ {decl other : Declaration}, decl ∈ Step.contents scope program.steps →
      other ∈ Step.contents scope program.steps → decl.node = some mark.id →
      other.node ≠ some mark.id → fresh ≠ other.name ∧ decl.name ≠ other.name := by
    intro decl other member memberToo own strange
    have same : scope = home := by
      rw [← Step.scope_of_mem_contents member, eq_of_declared nodup declared member own]
    have declares : other ∈ Step.declared scope program.steps := by
      rcases Step.mem_contents_cases memberToo with ⟨outermost, _⟩ | declares
      · obtain ⟨_, _, positive, _⟩ := (Walk.ordered_program program.body).of_mem declared
        rw [← same, outermost] at positive
        exact absurd positive (Nat.lt_irrefl _)
      · exact declares
    refine ⟨(ne_fresh unused declares).symm, fun sameName => strange ?_⟩
    obtain ⟨found, present⟩ := present_of_declared declares
    rw [← reflects.eq_of_name present member memberToo sameName, own]
  rw [name_exchanging nodup declared isVariable member,
    name_exchanging nodup declared isVariable memberToo]
  by_cases own : decl.node = some mark.id <;> by_cases ownToo : other.node = some mark.id
  · rw [eq_of_declared nodup declared member own, eq_of_declared nodup declared memberToo ownToo]
    simp
  · obtain ⟨here, there⟩ := alone member memberToo own ownToo
    rw [if_pos own, if_neg ownToo]
    exact iff_of_false here there
  · obtain ⟨here, there⟩ := alone memberToo member ownToo own
    rw [if_neg own, if_pos ownToo]
    exact iff_of_false here.symm there.symm
  · rw [if_neg own, if_neg ownToo]

theorem respects_exchanging :
    (program.exchanging notes mark.id old fresh).Respects program.steps where
  distinct member memberToo :=
    agree_exchanging nodup declared analyzed isVariable unused (List.mem_append_right _ member)
      (List.mem_append_right _ memberToo)
  kept := by
    intro owner scope members decl member
    have holds : decl ∈ Step.contents scope program.steps := List.mem_append_right _ member
    rw [name_exchanging nodup declared isVariable holds, if_neg]
    intro own
    have same : scope = home := by
      rw [← Step.scope_of_mem_contents holds, eq_of_declared nodup declared holds own]
    obtain ⟨opened, _, here, ordered⟩ := Walk.sequential_of_declare isVariable declared
    obtain ⟨other, _, there, unordered⟩ := Walk.opened_of_setMembers members
    rw [same] at there
    rw [Walk.kind_unique here there, unordered] at ordered
    cases ordered

/-! ## What names mean -/

section Looks

variable {lenient : Prop} {goes : DeclId → DeclId → Prop}
  (recasts : program.symbols.Recasts (program.exchanging notes mark.id old fresh) id
    (program.Added (program.exchanging notes mark.id old fresh)) program.steps goes
    (program.recast (program.exchanging notes mark.id old fresh)).symbols)

include recasts

/-- A declaration of a scope has the name there that it has in the end. -/
theorem declaredIn_exchanging {scope : ScopeId} {found : Scope}
    (present : program.symbols.scopes[scope]? = some found) {decl : Declaration}
    (holds : decl ∈ Step.contents scope program.steps) :
    Option.Rel goes (program.symbols.declaredIn? scope decl.name)
      ((program.recast (program.exchanging notes mark.id old fresh)).symbols.declaredIn? scope
        (if decl.node = some mark.id then fresh else decl.name)) := by
  rw [← name_exchanging nodup declared isVariable holds]
  exact recasts.declaredIn present
    (fun other member => agree_exchanging nodup declared analyzed isVariable unused member holds)
    (Recast.not_strange _ _ _ _)

omit analyzed isVariable recasts in
/-- In a scope of the program, no declaration comes to have the name of another one. -/
theorem name_eq_of_exchanging {inner around : ScopeId} (positive : 0 < inner)
    {decl meant : Declaration} (inside : decl ∈ Step.contents inner program.steps)
    (holds : meant ∈ Step.contents around program.steps) (other : meant.name ≠ fresh)
    (same : (if decl.node = some mark.id then fresh else decl.name) =
      if meant.node = some mark.id then fresh else meant.name) : decl.name = meant.name := by
  by_cases own : decl.node = some mark.id <;> by_cases ownToo : meant.node = some mark.id
  · rw [eq_of_declared nodup declared inside own, eq_of_declared nodup declared holds ownToo]
  · rw [if_pos own, if_neg ownToo] at same
    exact absurd same.symm other
  · rw [if_neg own, if_pos ownToo] at same
    rcases Step.mem_contents_cases inside with ⟨outermost, _⟩ | declares
    · rw [outermost] at positive
      exact absurd positive (Nat.lt_irrefl _)
    · exact absurd same (ne_fresh unused declares)
  · rw [if_neg own, if_neg ownToo] at same
    exact same

omit nodup declared analyzed isVariable unused in
/-- A declaration is visible from the same places in the end. -/
theorem isVisible_exchanging {scope : ScopeId} {found : Scope} {here image : DeclId}
    (present : program.symbols.scopes[scope]? = some found) (related : goes here image)
    (place : Nat) :
    (program.recast (program.exchanging notes mark.id old fresh)).symbols.isVisible scope image
      place = program.symbols.isVisible scope here place :=
  recasts.isVisible present related fun _ member =>
    order_declaration (alike_recastMirror (r := program.exchanging notes mark.id old fresh) program
      goes (.inl trivial)) (fun _ _ _ => Iff.rfl) member

/-- What stands in the way of a declaration in the end did so before. -/
theorem hidden_exchanging {inner around : ScopeId} {found : Scope} {meant : Declaration}
    {place : Nat} (present : program.symbols.scopes[inner]? = some found) (positive : 0 < inner)
    (holds : meant ∈ Step.contents around program.steps) (other : meant.name ≠ fresh)
    (hidden : ∀ here, program.symbols.declaredIn? inner meant.name = some here →
      program.symbols.isVisible inner here place = false) : ∀ image,
    (program.recast (program.exchanging notes mark.id old fresh)).symbols.declaredIn? inner
      (if meant.node = some mark.id then fresh else meant.name) = some image →
    (program.recast (program.exchanging notes mark.id old fresh)).symbols.isVisible inner image
      place = false := by
  intro image there
  by_cases named : ∃ decl ∈ Step.contents inner program.steps,
      (if decl.node = some mark.id then fresh else decl.name) =
        if meant.node = some mark.id then fresh else meant.name
  · obtain ⟨decl, inside, same⟩ := named
    have sameName := name_eq_of_exchanging nodup declared unused positive inside holds other same
    have related := declaredIn_exchanging nodup declared analyzed isVariable unused recasts present
      inside
    rw [same, sameName, there] at related
    generalize before : program.symbols.declaredIn? inner meant.name = first at related
    cases related with
    | some related =>
      rw [isVisible_exchanging recasts present related]
      exact hidden _ before
  · have vacant : (program.recast
        (program.exchanging notes mark.id old fresh)).symbols.declaredIn? (id inner)
        (if meant.node = some mark.id then fresh else meant.name) = none :=
      recasts.declaredIn_eq_none present
        (fun decl inside same => named ⟨decl, inside, by
          rw [← same, name_exchanging nodup declared isVariable inside]⟩)
        (Recast.not_strange _ _ _ _)
    rw [id_eq, there] at vacant
    cases vacant

/-- What a name means is meant by the same name, or by the new one if it is the variable. -/
theorem looks_exchanging {scope : ScopeId} {name : String} {place : Nat} {target : DeclId}
    {decl : Declaration} (finds : notes.Finds scope name place target decl)
    (other : name ≠ fresh) :
    (program.recastMirror (program.exchanging notes mark.id old fresh) lenient goes).Looks
      (program.symbols.lookup scope name place)
      ((program.recast (program.exchanging notes mark.id old fresh)).symbols.lookup scope
        (if decl.node = some mark.id then fresh else name) place) := by
  have reflects := reflects_of_analyze nodup analyzed
  have ordered := Walk.ordered_program program.body
  have alike := alike_recastMirror (r := program.exchanging notes mark.id old fresh) program goes
    (.inl trivial)
  obtain ⟨looked, means⟩ := finds
  rw [symbols_of_analyze analyzed] at looked means
  obtain ⟨before, around, after, split, declares, visible, hidden⟩ :=
    SymbolTable.lookupAlong_eq_ok looked
  obtain ⟨meant, holds, present, rfl⟩ := reflects.declaredIn declares
  obtain rfl : meant = decl := Option.some.inj (present.symm.trans means)
  have inChain : ∀ inner ∈ before ++ around :: after,
      ∃ found, program.symbols.scopes[inner]? = some found := by
    intro inner member
    rw [← split] at member
    exact SymbolTable.present_of_mem_chainFrom member
  have positive : ∀ inner ∈ before, 0 < inner := by
    intro inner member
    have decreasing := (reflects.chainFrom_older ordered program.symbols.scopes.size scope).2
    rw [← SymbolTable.chain, split, List.pairwise_append] at decreasing
    exact Nat.zero_lt_of_lt (decreasing.2.2 inner member around List.mem_cons_self)
  have hiddenToo : ∀ inner ∈ before, ∀ image,
      (program.recast (program.exchanging notes mark.id old fresh)).symbols.declaredIn? inner
        (if meant.node = some mark.id then fresh else meant.name) = some image →
      (program.recast (program.exchanging notes mark.id old fresh)).symbols.isVisible inner image
        place = false := by
    intro inner member
    obtain ⟨there, presentToo⟩ := inChain inner (List.mem_append_left _ member)
    exact hidden_exchanging nodup declared analyzed isVariable unused recasts presentToo
      (positive inner member) holds other (hidden inner member)
  obtain ⟨found, presentToo⟩ := inChain around (List.mem_append_right _ List.mem_cons_self)
  have related := declaredIn_exchanging nodup declared analyzed isVariable unused recasts
    presentToo holds
  rw [declares] at related
  generalize here : SymbolTable.declaredIn? _ around _ = image at related
  cases related with
  | some related =>
    have chain : (program.recast (program.exchanging notes mark.id old fresh)).symbols.chain scope =
        before ++ around :: after := by
      have inside : around ∈ program.symbols.chain scope :=
        split ▸ List.mem_append_right before List.mem_cons_self
      obtain ⟨_, inTable⟩ := SymbolTable.present_of_mem_chain inside
      rw [← split, ← List.map_id (program.symbols.chain scope)]
      exact chain_survey alike rfl inTable
    rw [looked, SymbolTable.lookup, chain, SymbolTable.lookupAlong_of_hidden here
      ((isVisible_exchanging recasts presentToo related place).trans visible) hiddenToo]
    exact .found related

end Looks

omit unused in
/-- What is no variable is not the one that is called anew. -/
theorem node_ne_of_kind {target : DeclId} {decl : Declaration} {scope : ScopeId} {name : String}
    {place : Nat} (finds : notes.Finds scope name place target decl)
    (other : decl.kind.isVariable = false) : decl.node ≠ some mark.id := by
  intro own
  have present := finds.present
  rw [symbols_of_analyze analyzed] at present
  have holds := (reflects_of_analyze nodup analyzed).decls present
  rw [eq_of_declared nodup declared holds own] at other
  rw [other] at isVariable
  cases isVariable

omit nodup declared isVariable analyzed in
theorem asked_ne_fresh {step : Step} (walked : step ∈ program.steps) {asked : Step.Lookup}
    (is : step.asked = some asked) : asked.name ≠ fresh := by
  rintro rfl
  obtain ⟨node, inside, refers, _⟩ := node_of_asked walked is
  exact unused node inside (Node.mem_names_of_refers refers)

omit isVariable unused in
/-- The variable is meant by its name. -/
theorem eq_old_of_finds {scope : ScopeId} {name : String} {place : Nat} {target : DeclId}
    {decl : Declaration} (finds : notes.Finds scope name place target decl)
    (own : decl.node = some mark.id) : name = old := by
  obtain ⟨looked, present⟩ := finds
  rw [symbols_of_analyze analyzed] at looked present
  obtain ⟨_, around, _, _, declares, _, _⟩ := SymbolTable.lookupAlong_eq_ok looked
  obtain ⟨meant, holds, presentToo, rfl⟩ :=
    (reflects_of_analyze nodup analyzed).declaredIn declares
  obtain rfl : meant = decl := Option.some.inj (presentToo.symm.trans present)
  rw [eq_of_declared nodup declared holds own]

omit isVariable unused in
/-- A symbol is called as what it means. -/
theorem name_symbol (fresh : String) {scope : ScopeId} {expectation : Expectation} {place : Mark}
    {name : String} {target : DeclId} {decl : Declaration}
    (walked : .expr scope expectation (.symbol place name) ∈ program.steps)
    (finds : notes.Finds scope name place.span.start.offset target decl)
    (means : notes.declOf? place.id = some decl) :
    (program.exchanging notes mark.id old fresh).name place.id name =
      if decl.node = some mark.id then fresh else name := by
  by_cases own : decl.node = some mark.id
  · have called := (calls_symbol nodup declared walked means).mpr own
    have same := eq_old_of_finds nodup declared analyzed finds own
    simp only [exchanging, called, if_true, if_pos own, same, Equiv.swap_apply_left]
  · have quiet : program.calls notes mark.id place.id = false := by
      rw [Bool.eq_false_iff, Ne, calls_symbol nodup declared walked means]
      exact own
    simp [exchanging, quiet, own]

/-- Every name that is looked up means what it meant. -/
theorem looksAlike_exchanging (lenient : Prop) :
    program.LooksAlike (program.exchanging notes mark.id old fresh) lenient := by
  intro goes recasts step walked image mirrors
  have holds := (accepted_of_analyze nodup analyzed).holds step walked
  have looks : ∀ {scope : ScopeId} {name : String} {place : Nat} {target : DeclId}
      {decl : Declaration}, notes.Finds scope name place target decl → name ≠ fresh →
      (program.recastMirror (program.exchanging notes mark.id old fresh) lenient goes).Looks
        (program.symbols.lookup scope name place)
        ((program.recast (program.exchanging notes mark.id old fresh)).symbols.lookup scope
          (if decl.node = some mark.id then fresh else name) place) := fun finds =>
    looks_exchanging nodup declared analyzed isVariable unused recasts finds
  -- Only symbols mean variables.
  have looksElse := fun {scope : ScopeId} {name : String} {place : Nat} {target : DeclId}
    {decl : Declaration} (finds : notes.Finds scope name place target decl)
      (other : decl.kind.isVariable = false) (apart : name ≠ fresh) =>
      if_neg (t := fresh) (e := name)
        (node_ne_of_kind nodup declared analyzed isVariable finds other) ▸ looks finds apart
  have apart : ∀ {asked : Step.Lookup}, step.asked = some asked → asked.name ≠ fresh :=
    asked_ne_fresh unused walked
  cases mirrors with
  | @typeExpr scope type _ _ _ =>
    cases type with
    | named mark name =>
      obtain ⟨_, decl, _, finds, denotes, _⟩ :=
        Rule.typeName_holds_iff.mp (holds _ List.mem_cons_self)
      exact .some (looksElse finds (Declaration.isVariable_of_denoted denotes) (apart rfl))
    | array mark component => exact .none
  | @expr scope expectation other e _ _ _ _ =>
    cases e with
    | symbol place name =>
      obtain ⟨_, decl, _, finds, _, refers, _⟩ :=
        Rule.symbol_holds_iff.mp (holds _ List.mem_cons_self)
      have called := name_symbol nodup declared analyzed fresh walked finds
        (finds.declOf? refers)
      refine .some ?_
      simp only [Step.Lookup.result, called]
      exact looks finds (apart rfl)
    | «constructor» mark name =>
      obtain ⟨_, decl, _, _, finds, isStruct, _⟩ :=
        Rule.constructor_holds_iff.mp (holds _ List.mem_cons_self)
      exact .some (looksElse finds (Declaration.isVariable_of_namedType isStruct) (apart rfl))
    | create mark name =>
      obtain ⟨_, decl, _, finds, isBox, _⟩ :=
        Rule.create_holds_iff.mp (holds _ List.mem_cons_self)
      exact .some (looksElse finds (Declaration.isVariable_of_namedType isBox) (apart rfl))
    | _ => exact .none
  | _ => exact .none

/-! ## The tree -/

omit isVariable unused in
/-- The nodes that are called anew had the old name. -/
theorem name_eq_of_calls {node : Node} (inside : node ∈ Stmt.nodesOfAll program.body)
    {name : String} (renames : node.renames? = some name)
    (called : program.calls notes mark.id node.id = true) : name = old := by
  rw [calls_iff] at called
  rcases called with same | ⟨place, written, symbol, same, decl, means, is⟩
  · obtain ⟨own, ownInside, is, declares⟩ := node_of_declare declared
    obtain rfl : node = own := eq_of_id nodup inside ownInside (by rw [same, Node.id_eq, is])
    unfold Node.renames? at renames
    split at renames
    · cases declares
    · exact (Option.some.inj renames).symm.trans (Option.some.inj declares)
    · exact (Option.some.inj renames).symm.trans (Option.some.inj declares)
    · cases renames
  · obtain rfl : node = .expr (.symbol place written) :=
      eq_of_id nodup inside symbol same.symm
    obtain rfl : written = name := Option.some.inj renames
    obtain ⟨scope, expectation, walked⟩ := Walk.covers_program program.body _ symbol
    obtain ⟨_, meant, _, finds, _, refers, _⟩ := Rule.symbol_holds_iff.mp
      ((accepted_of_analyze nodup analyzed).holds _ walked _ List.mem_cons_self)
    have sameDecl : some decl = some meant := by
      rw [← means, ← same]
      exact finds.declOf? refers
    exact eq_old_of_finds nodup declared analyzed finds (Option.some.inj sameDecl ▸ is)

omit isVariable unused in
/-- To exchange the names is to call the variable anew. -/
theorem recast_callingAnew : program.recast (program.callingAnew notes mark.id fresh) =
    program.recast (program.exchanging notes mark.id old fresh) := by
  refine congrArg (fun body => (⟨program.mark, body⟩ : Program)) ?_
  refine Stmt.recastAll_calling (r := program.exchanging notes mark.id old fresh)
    (fun node inside name renames => ?_) program.body (List.Subset.refl _)
  simp only [exchanging]
  split
  · rename_i called
    rw [name_eq_of_calls nodup declared analyzed inside renames called, Equiv.swap_apply_left]
  · rfl

/-! ## Both analyses and both runs -/

omit analyzed unused in
/-- A declaration is called as the node that makes it. -/
theorem name_declared {scope : ScopeId} {name : String} {other : DeclKind} {place : Mark}
    {later : Nat} (walked : .declare scope name other place later ∈ program.steps) :
    (program.exchanging notes mark.id old fresh).name place.id name =
      (program.exchanging notes mark.id old fresh).called other place.id name := by
  cases other with
  | var | param => rfl
  | _ =>
    have quiet : program.calls notes mark.id place.id = false := by
      rw [Bool.eq_false_iff, Ne, calls_declared nodup walked]
      intro same
      have member := Step.mem_declared.mpr ⟨_, _, _, _, walked, rfl⟩
      have equal := eq_of_declared nodup declared (List.mem_append_right _ member)
        (congrArg some same)
      rw [← (Declaration.mk.inj equal).2.1] at isVariable
      cases isVariable
    simp [exchanging, quiet, Recast.called]

omit isVariable unused in
/-- A symbol is called as the node that makes what it means. -/
theorem name_refers {scope : ScopeId} {expectation : Expectation} {place : Mark} {name : String}
    {decl : Declaration} (walked : .expr scope expectation (.symbol place name) ∈ program.steps)
    (means : notes.declOf? place.id = some decl) :
    (program.exchanging notes mark.id old fresh).name place.id name =
      (program.exchanging notes mark.id old fresh).bound decl.node name := by
  have calls := calls_symbol nodup declared walked means
  cases is : decl.node with
  | none =>
    rw [is] at calls
    have quiet : program.calls notes mark.id place.id = false := by
      rw [Bool.eq_false_iff, Ne, calls]
      simp
    simp [exchanging, quiet, Recast.bound]
  | some node =>
    obtain ⟨_, _, present⟩ := Annotations.declOf?_eq_some.mp means
    rw [symbols_of_analyze analyzed] at present
    have holds := (reflects_of_analyze nodup analyzed).decls present
    obtain ⟨written, other, spot, later, declares, same⟩ :
        ∃ written other spot later, .declare decl.scope written other spot later ∈ program.steps ∧
          decl = ⟨written, other, some spot.id, decl.scope, later, spot.span⟩ := by
      rcases Step.mem_contents_cases holds with ⟨_, builtin⟩ | declares
      · obtain ⟨_, _, rfl⟩ := List.mem_map.mp builtin
        cases is
      · exact Step.mem_declared.mp declares
    rw [same] at is
    have spotId : spot.id = node := Option.some.inj is
    have equal : program.calls notes mark.id place.id = program.calls notes mark.id node := by
      rw [Bool.eq_iff_iff, calls, ← spotId, calls_declared nodup declares, same, Option.some.injEq]
    simp only [exchanging, Recast.bound, equal]

theorem alike_callingAnew : ∃ image,
    analyze (program.recast (program.callingAnew notes mark.id fresh)) = .ok image ∧
      notes.AgreeOn program.body image ∧
      ∀ fuel output, Outcome.Alike (fun cause other => other.name = cause.name)
        (fun span place => place = span ∧ program.HasPlace span)
        (runProgram fuel notes program (.fresh output))
        (runProgram fuel image (program.recast (program.callingAnew notes mark.id fresh))
          (.fresh output)) := by
  rw [recast_callingAnew nodup declared analyzed]
  have unwrapped : (program.exchanging notes mark.id old fresh).Unwrapped := exchanging_unwrapped
  have respects := respects_exchanging nodup declared analyzed isVariable unused
  obtain ⟨goes, recasts, found⟩ := found_mirrors unwrapped (.inl trivial) respects
    (looksAlike_exchanging nodup declared analyzed isVariable unused True)
  obtain ⟨image, analyzedToo⟩ := exists_ok_of_errors found.errors analyzed
  have stores : (program.recastMirror (program.exchanging notes mark.id old fresh) True goes).Stores
      notes.facts image.facts := by
    rw [facts_of_analyze analyzed, facts_of_analyze analyzedToo]
    exact found.stores
  refine ⟨image, analyzedToo, stores.agreeOn fun node inside kind => recastMirror_own inside kind,
    fun fuel output => ?_⟩
  have faithful : (program.rerun (program.exchanging notes mark.id old fresh) notes image True
      .even).Faithful :=
    faithful_rerun nodup analyzed analyzedToo recasts stores (.inl trivial) exchanging_injective
      (fun _ => unwrapped) respects (name_declared nodup declared isVariable)
      (name_refers nodup declared analyzed)
  have ends := (Rerun.sameEnd faithful rfl (show Pace.even.goes fuel fuel from rfl)
    output).alike_of_ended nofun nofun
  refine ends.mono (fun cause other same => ?_) fun span place goes => goes
  rcases same with rfl | ⟨_, same⟩
  · rfl
  · exact same

end Exchange

/-- A variable or parameter of an accepted program may be called by any identifier that the program
has nowhere: where it is declared and where it is meant, the old name is replaced by the new one.
The program is then accepted with the same types, and it runs alike: up to the same value text, or
up to the same kind of error at the same node, and with the same output. -/
theorem renamed_alike {program : Program} {notes : Annotations} {mark : Mark} {old fresh : String}
    (nodup : (Stmt.idsOfAll program.body).Nodup) (analyzed : analyze program = .ok notes)
    (declared : (mark, old) ∈ program.declaredVariables) (unused : fresh ∉ program.names) : ∃ image,
    analyze (program.recast (program.callingAnew notes mark.id fresh)) = .ok image ∧
      notes.AgreeOn program.body image ∧
      ∀ fuel output, Outcome.Alike (fun cause other => other.name = cause.name)
        (fun span place => place = span ∧ program.HasPlace span)
        (runProgram fuel notes program (.fresh output))
        (runProgram fuel image (program.recast (program.callingAnew notes mark.id fresh))
          (.fresh output)) := by
  obtain ⟨home, kind, position, walked, isVariable⟩ := declare_of_declaredVariables declared
  exact alike_callingAnew nodup walked analyzed isVariable
    fun node inside has => unused (List.mem_flatMap.mpr ⟨node, inside, has⟩)

/-- The program that a source spells, if it is accepted, declares a variable or parameter of one
name and has another name nowhere. -/
def admitsRenaming (file : String) (source : List Char) (old fresh : String) : Bool :=
  match readProgram file source with
  | .error _ => false
  | .ok program => (analyze program).isOk && !program.names.elem fresh &&
      program.declaredVariables.any (·.2 == old)

theorem renaming_of_admits {file : String} {source : List Char} {old fresh : String}
    (admits : admitsRenaming file source old fresh = true) : ∃ program notes mark,
    readProgram file source = .ok program ∧ analyze program = .ok notes ∧
      (mark, old) ∈ program.declaredVariables ∧ fresh ∉ program.names := by
  unfold admitsRenaming at admits
  split at admits
  · cases admits
  · rename_i program read
    rw [Bool.and_eq_true, Bool.and_eq_true, List.any_eq_true] at admits
    obtain ⟨⟨accepts, unused⟩, ⟨mark, name⟩, declared, same⟩ := admits
    obtain rfl : name = old := eq_of_beq same
    cases analyzed : analyze program with
    | error _ => simp [analyzed, Except.isOk, Except.toBool] at accepts
    | ok notes => exact ⟨program, notes, mark, read, analyzed, declared, by simpa using unused⟩

/-- A parameter that hides a variable of its name, called like a builtin function. -/
theorem renamed_alike_over_shadowed : ∃ program notes mark image,
    readProgram "main.sigh" "var x = 0
fun f(x: Int): Int { var y = x
return 1 / y }
f(x)".toList =
        .ok program ∧
      analyze program = .ok notes ∧ (mark, "x") ∈ program.declaredVariables ∧
      analyze (program.recast (program.callingAnew notes mark.id "print")) = .ok image ∧
      notes.AgreeOn program.body image ∧
      Outcome.Alike (fun cause other => other.name = cause.name)
        (fun span place => place = span ∧ program.HasPlace span)
        (runProgram 20 notes program (.fresh .unlimited))
        (runProgram 20 image (program.recast (program.callingAnew notes mark.id "print"))
          (.fresh .unlimited)) := by
  have admits : admitsRenaming "main.sigh"
      "var x = 0
fun f(x: Int): Int { var y = x
return 1 / y }
f(x)".toList "x" "print" = true := by
    decide +kernel
  obtain ⟨program, notes, mark, read, analyzed, declared, unused⟩ := renaming_of_admits admits
  obtain ⟨image, again, agree, runs⟩ :=
    renamed_alike (nodup_of_readProgram read) analyzed declared unused
  exact ⟨program, notes, mark, image, read, analyzed, declared, again, agree, runs 20 .unlimited⟩

end Program

end BoxScript
