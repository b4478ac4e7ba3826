import BoxScript.Proofs.Recasting.Rules
import BoxScript.Proofs.Recasting.Steps
import BoxScript.Proofs.Recasting.Tables
import BoxScript.Proofs.Typing.Found

/-!
# The analysis of a tree cast anew

The analysis of a program is compared with that of its tree cast anew: each node is taken for
itself, and parentheses and braces that are added for what they are put around
(`Program.recastMirror`). Where nothing is added and each name means the same in both trees, the two
analyses go through the same passes and find the same (`Program.found_mirrors`).

What the two analyses say of the nodes is what the comparison of the two runs asks of them
(`Program.faithful_rerun`).
-/

set_option autoImplicit false

namespace BoxScript

/-! ## Names -/

/-- No step that is added declares a name. -/
theorem Recast.not_strange (r : Recast) (nodes : List Node) (scope : ScopeId) (name : String) :
    ¬ Step.Strange (Step.Added r nodes) scope name := by
  rintro ⟨kind, mark, position, key, image, copies, _⟩
  cases copies

/-- What is required of the names that declarations have when a tree is cast anew: those of one
scope are told apart as before, and the members of structs and boxes keep theirs. -/
structure Recast.Respects (r : Recast) (steps : List Step) : Prop where
  distinct : ∀ {scope : ScopeId} {decl other : Declaration}, decl ∈ Step.declared scope steps →
    other ∈ Step.declared scope steps →
    ((r.declaration id decl).name = (r.declaration id other).name ↔ decl.name = other.name)
  kept : ∀ {owner : NodeId} {scope : ScopeId}, .setMembers owner scope ∈ steps →
    ∀ decl ∈ Step.declared scope steps, (r.declaration id decl).name = decl.name

section Unchanged

variable {r : Recast} (names : ∀ id name, r.name id name = name)

include names

theorem Recast.name_declaration (move : ScopeId → ScopeId) (decl : Declaration) :
    (r.declaration move decl).name = decl.name := by
  unfold Recast.declaration
  split
  · rfl
  · cases kind : decl.kind <;> simp only [called, names]

theorem Recast.respects_of_names (steps : List Step) : r.Respects steps where
  distinct _ _ := by rw [name_declaration names, name_declaration names]
  kept _ decl _ := name_declaration names id decl

end Unchanged

namespace Program

variable {program : Program} {r : Recast} {lenient : Prop} {goes : DeclId → DeclId → Prop}

/-! ## The mirror -/

/-- Whether a node of a program has an identity. -/
def HasNode (program : Program) (id : NodeId) : Prop :=
  ∃ node ∈ Stmt.nodesOfAll program.body, node.id = id

/-- Whether a node of a program lies in a place. -/
def HasPlace (program : Program) (span : Span) : Prop :=
  ∃ node ∈ Stmt.nodesOfAll program.body, node.mark.span = span

/-- Whether a step is there for what is added to a program. -/
abbrev Added (program : Program) (r : Recast) (step : Step) : Prop :=
  step.Added r (Stmt.nodesOfAll program.body)

/-- Whether an answer is copied to what is added to a program. -/
def Copied (program : Program) (r : Recast) (key image : FactKey) : Prop :=
  r.Wraps (Stmt.nodesOfAll program.body) key image ∧
    ∃ step ∈ (program.recast r).steps, step.Copies key image

/-- How the analysis of a program is compared with that of the program cast anew. -/
def recastMirror (program : Program) (r : Recast) (lenient : Prop)
    (goes : DeclId → DeclId → Prop) : Mirror where
  left := program.symbols
  right := (program.recast r).symbols
  reads key image := image = key ∧ program.HasNode key.node ∨ program.Copied r key image
  decls := goes
  spans span place := place = r.span span ∧ program.HasPlace span
  owners node := program.HasNode node
  lenient := lenient

theorem recastMirror_same (unwrapped : r.Unwrapped) :
    (program.recastMirror r lenient goes).Same := by
  rintro key image (⟨same, _⟩ | ⟨wraps, _⟩)
  · exact same
  · exact absurd wraps (unwrapped.not_wraps _ _)

theorem recastMirror_own {node : Node} (inside : node ∈ Stmt.nodesOfAll program.body)
    (kind : FactKind) :
    (program.recastMirror r lenient goes).reads ⟨node.id, kind⟩ ⟨node.id, kind⟩ :=
  .inl ⟨rfl, node, inside, rfl⟩

variable (program goes) in
theorem fits_recastMirror (names : lenient ∨ ∀ id name, r.name id name = name) :
    r.Fits (program.recastMirror r lenient goes) (Stmt.nodesOfAll program.body)
      (program.recast r).steps where
  own _ inside kind := recastMirror_own inside kind
  spans node inside := ⟨rfl, node, inside, rfl⟩
  copies step member _ _ copies wraps := .inr ⟨wraps, step, member, copies⟩
  names := names

variable (program goes) in
/-- The walk over the program and the walk over the program cast anew. -/
theorem alike_recastMirror (names : lenient ∨ ∀ id name, r.name id name = name) :
    Step.Alike (program.recastMirror r lenient goes) r (Stmt.nodesOfAll program.body) id
      program.steps (program.recast r).steps :=
  Walk.alike_program (fits_recastMirror program goes names) (List.Subset.refl _)
    (List.Subset.refl _)

/-! ## Nodes of steps -/

/-- A node is told by its identity. -/
theorem eq_of_id (nodup : (Stmt.idsOfAll program.body).Nodup) {node other : Node}
    (here : node ∈ Stmt.nodesOfAll program.body) (there : other ∈ Stmt.nodesOfAll program.body)
    (same : node.id = other.id) : node = other := by
  rw [← Stmt.map_id_nodesOfAll] at nodup
  exact List.inj_on_of_nodup_map nodup here there same

/-- The steps of a walk mirror themselves. -/
theorem mirrors_self {step : Step} (walked : step ∈ program.steps) : ∃ image,
    Step.Mirrors (program.recastMirror .none False fun _ _ => False) .none
      (Stmt.nodesOfAll program.body) id step image := by
  have alike : Step.Alike (program.recastMirror .none False fun _ _ => False) .none
      (Stmt.nodesOfAll program.body) id program.steps (program.recast .none).steps :=
    alike_recastMirror program (fun _ _ => False) (.inr fun _ _ => rfl)
  obtain ⟨image, _, mirrors⟩ := alike.mem_left walked
  exact ⟨image, mirrors⟩

/-- What is declared is declared by a node. -/
theorem node_of_declare {scope : ScopeId} {name : String} {kind : DeclKind} {mark : Mark}
    {position : Nat} (walked : .declare scope name kind mark position ∈ program.steps) :
    ∃ node ∈ Stmt.nodesOfAll program.body, node.mark = mark ∧ node.declares? = some name := by
  obtain ⟨image, mirrors⟩ := mirrors_self walked
  cases mirrors with
  | declare _ _ _ named => exact named

/-- What is looked up is what a node refers to. -/
theorem node_of_asked {step : Step} (walked : step ∈ program.steps) {asked : Step.Lookup}
    (is : step.asked = some asked) : ∃ node ∈ Stmt.nodesOfAll program.body,
      node.refers? = some asked.name ∧ node.mark = asked.mark := by
  obtain ⟨image, mirrors⟩ := mirrors_self walked
  exact mirrors.refers is

theorem node_of_expr {scope : ScopeId} {expectation : Expectation} {e : Expr}
    (walked : .expr scope expectation e ∈ program.steps) :
    .expr e ∈ Stmt.nodesOfAll program.body := by
  obtain ⟨image, mirrors⟩ := mirrors_self walked
  cases mirrors with
  | expr inside => exact inside

/-! ## Symbol tables -/

/-- The symbol table of an accepted program is that of the walk over it. -/
theorem reflects_of_analyze {program : Program} {notes : Annotations}
    (nodup : (Stmt.idsOfAll program.body).Nodup) (analyzed : analyze program = .ok notes) :
    program.symbols.Reflects program.steps := by
  rw [← symbols_of_analyze analyzed]
  exact (accepted_of_analyze nodup analyzed).reflects

theorem tells_recastMirror (names : lenient ∨ ∀ id name, r.name id name = name)
    (respects : r.Respects program.steps) :
    r.Tells (program.recastMirror r lenient goes) id (program.Added r) program.steps where
  injective same := same
  outermost := rfl
  distinct := respects.distinct
  apart _ := r.not_strange _ _ _
  named := names

theorem owns_recastMirror (respects : r.Respects program.steps) :
    r.Owns (program.recastMirror r lenient goes) id (program.Added r) program.steps where
  owned := by
    rintro node (⟨_, own⟩ | ⟨_, step, _, copies⟩)
    · exact own
    · cases copies
  silent := by
    rintro owner _ scope ⟨key, image, copies, _⟩
    cases copies
  closed _ name := r.not_strange _ _ name
  kept := respects.kept

/-- Steps that are added declare nothing, so declarations have the same numbers in both tables. -/
theorem eq_of_recasts {whole : List Step} {left right : SymbolTable}
    (recasts : left.Recasts r id (program.Added r) whole goes right) {id image : DeclId}
    (here : goes id image) : image = id := by
  refine (recasts.numbered ?_).2 id image here
  rintro step ⟨key, image, copies, _⟩
  cases copies <;> rfl

variable (program) in
/-- The tables of both walks, and the duplicate names in both. -/
theorem recasts_recastMirror (names : lenient ∨ ∀ id name, r.name id name = name)
    (respects : r.Respects program.steps) : ∃ goes,
    program.symbols.Recasts r id (program.Added r) program.steps goes (program.recast r).symbols ∧
      List.Forall₂ (program.recastMirror r lenient goes).Errors
        (survey program.steps).errors.toList (survey (program.recast r).steps).errors.toList ∧
      (program.recastMirror r lenient goes).Faithful := by
  obtain ⟨goes, recasts⟩ := recasts_survey (tells_recastMirror names respects)
    (alike_recastMirror program (fun _ _ => False) names)
  refine ⟨goes, recasts.symbols, recasts.errors.forall₂ ?_, ?_⟩
  · rintro error ⟨scope, name, kind, mark, position, added, _⟩
    exact r.not_strange _ scope name ⟨kind, mark, position, added⟩
  · exact faithful_survey (alike_recastMirror program goes names) rfl rfl
      (owns_recastMirror respects) recasts.symbols

/-! ## Findings -/

/-- Whether the names of a program mean the same when it is cast anew. -/
def LooksAlike (program : Program) (r : Recast) (lenient : Prop) : Prop :=
  ∀ goes, program.symbols.Recasts r id (program.Added r) program.steps goes
      (program.recast r).symbols →
    ∀ step ∈ program.steps, ∀ image,
      Step.Mirrors (program.recastMirror r lenient goes) r (Stmt.nodesOfAll program.body) id step
        image →
      (program.recastMirror r lenient goes).LooksAlike step.asked image.asked

/-- Names mean the same where they stay and where variables are visible from the same places. -/
theorem looksAlike_of_names (names : ∀ id name, r.name id name = name)
    (order : ∀ home, ∀ decl ∈ Step.declared home program.steps, decl.kind = .var →
      ∀ step ∈ program.steps, ∀ asked, step.asked = some asked →
        ((r.span decl.span).stop.offset ≤ (r.span asked.mark.span).start.offset ↔
          decl.span.stop.offset ≤ asked.mark.span.start.offset)) :
    program.LooksAlike r lenient := by
  intro goes recasts step walked image mirrors
  have renames := mirrors.asked
  have inside : ∀ asked, step.asked = some asked → _ := fun asked => Walk.asks_program walked
  have ordered := fun home decl member kind => order home decl member kind step walked
  generalize step.asked = asked at renames inside ordered
  generalize image.asked = other at renames
  cases renames with
  | none => exact .none
  | @some asked other renames =>
    have called : other.name = asked.name :=
      renames.name.elim id fun same => same.trans (names _ _)
    have bound : asked.scope < program.symbols.scopes.size :=
      lt_of_lt_of_eq (inside _ rfl).2 (size_survey program.body).symm
    refine .some ?_
    rw [Step.Lookup.result, Step.Lookup.result, renames.scope, called, renames.mark]
    refine looks_survey (alike_recastMirror program goes (.inr names)) rfl rfl recasts rfl
      (Array.getElem?_eq_getElem bound) (.inr rfl) ?_ ?_ ?_
    · intro home decl _
      rw [Recast.name_declaration names]
    · exact fun home there _ => r.not_strange _ _ _
    · exact fun home decl member kind => ordered home decl member kind _ rfl

/-- Where nothing is added and names mean the same, the analysis of the program cast anew finds what
that of the program does. -/
theorem found_mirrors (unwrapped : r.Unwrapped)
    (names : lenient ∨ ∀ id name, r.name id name = name) (respects : r.Respects program.steps)
    (looks : program.LooksAlike r lenient) : ∃ goes,
    program.symbols.Recasts r id (program.Added r) program.steps goes (program.recast r).symbols ∧
      program.found.Mirrors (program.recastMirror r lenient goes) (program.recast r).found := by
  obtain ⟨goes, recasts, duplicates, faithful⟩ := recasts_recastMirror program names respects
  have same : (program.recastMirror r lenient goes).Same := recastMirror_same unwrapped
  obtain ⟨rules, facts⟩ := Step.Alike.rules_of_unwrapped unwrapped faithful names
    (alike_recastMirror program goes names) fun step member image _ =>
      looks goes recasts step member image
  have started : program.start.Mirrors (program.recastMirror r lenient goes)
      (program.recast r).start := by
    refine ⟨?_, .nil⟩
    change (program.recastMirror r lenient goes).Stores (FactStore.empty.setAll program.seeds)
      (FactStore.empty.setAll (program.recast r).seeds)
    rw [show (program.recast r).seeds = program.seeds from facts]
    exact (Mirror.stores_empty _).setAll same (Step.answers_facts _ _)
  have solved := Findings.solve_mirrors same rules started
  exact ⟨goes, recasts, solved.stores, List.rel_append duplicates solved.errors⟩

/-- An analysis that finds as many errors accepts as well. -/
theorem isOk_of_errors {other : Program} {R : SemanticError → SemanticError → Prop}
    (errors : List.Forall₂ R program.found.errors other.found.errors) :
    (analyze other).isOk = (analyze program).isOk := by
  have length := errors.length_eq
  rw [Bool.eq_iff_iff, isOk_iff, isOk_iff, errors_eq, errors_eq, ← List.length_eq_zero_iff,
    ← List.length_eq_zero_iff, List.length_mergeSort, List.length_mergeSort, length]

theorem exists_ok_of_errors {other : Program} {R : SemanticError → SemanticError → Prop}
    (errors : List.Forall₂ R program.found.errors other.found.errors) {notes : Annotations}
    (analyzed : analyze program = .ok notes) : ∃ image, analyze other = .ok image := by
  have accepts := isOk_of_errors errors
  rw [analyzed] at accepts
  cases analyzedToo : analyze other with
  | ok image => exact ⟨image, rfl⟩
  | error _ => simp [analyzedToo, Except.isOk, Except.toBool] at accepts

/-! ## Runs -/

/-- How the run of an accepted program is compared with the run of the program cast anew. -/
def rerun (program : Program) (r : Recast) (notes image : Annotations) (lenient : Prop)
    (pace : Pace) : Rerun where
  known := program.analysis notes
  recast := r
  image := image
  spans span place := place = r.span span ∧ program.HasPlace span
  lenient := lenient
  pace := pace

variable {notes image : Annotations} {pace : Pace} {lax : Prop}

/-- Two runs may be compared if the analyses mirror one another, and variables are called alike
where they are declared and where they are meant. -/
theorem faithful_rerun (nodup : (Stmt.idsOfAll program.body).Nodup)
    (analyzed : analyze program = .ok notes) (analyzedToo : analyze (program.recast r) = .ok image)
    (recasts : program.symbols.Recasts r id (program.Added r) program.steps goes
      (program.recast r).symbols)
    (stores : (program.recastMirror r lax goes).Stores notes.facts image.facts)
    (names : lenient ∨ ∀ id name, r.name id name = name) (injective : r.Injective)
    (unwrapped : pace = .even → r.Unwrapped) (respects : r.Respects program.steps)
    (called : ∀ {scope : ScopeId} {name : String} {kind : DeclKind} {mark : Mark} {position : Nat},
      .declare scope name kind mark position ∈ program.steps →
      r.name mark.id name = r.called kind mark.id name)
    (refers : ∀ {scope : ScopeId} {expectation : Expectation} {mark : Mark} {name : String}
      {decl : Declaration}, .expr scope expectation (.symbol mark name) ∈ program.steps →
      notes.declOf? mark.id = some decl → r.name mark.id name = r.bound decl.node name) :
    (program.rerun r notes image lenient pace).Faithful where
  accepted := accepted_of_analyze nodup analyzed
  injective := injective
  unchanged := names
  unwrapped := unwrapped
  spans := by
    intro scope expectation e walked
    exact ⟨rfl, _, node_of_expr walked, rfl⟩
  types := by
    intro step walked key answered
    have own := Walk.node_of_program walked (Step.mem_uses_of_answers answered)
    exact (stores key key (.inl ⟨rfl, own⟩)).typeFact?
  decls := by
    rintro step walked ⟨node, kind⟩ answered rfl
    have own := Walk.node_of_program walked (Step.mem_uses_of_answers answered)
    have slots := stores ⟨node, .decl⟩ ⟨node, .decl⟩ (.inl ⟨rfl, own⟩)
    change Option.Rel _ (notes.declOf? node) (image.declOf? node)
    unfold Annotations.declOf? FactStore.known?
    generalize notes.facts.get? _ = value at slots
    generalize image.facts.get? _ = other at slots
    cases slots with
    | none | poisoned => exact .none
    | known answers =>
      cases answers with
      | type | flag => exact .none
      | decl here =>
        obtain ⟨decl, _, present, found⟩ := recasts.decls here
        rw [← symbols_of_analyze analyzed] at present
        rw [← symbols_of_analyze analyzedToo] at found
        simp only [present, found]
        exact .some ⟨Recast.node_declaration r id decl, Recast.kind_declaration r id decl⟩
  called := called
  refers := refers
  distinct := by
    intro scope decl member other memberToo same
    have renamed : ∀ decl ∈ Step.declared scope program.steps,
        r.bound decl.node decl.name = (r.declaration id decl).name := by
      intro decl member
      obtain ⟨name, kind, mark, position, walked, rfl⟩ := Step.mem_declared.mp member
      exact called walked
    change r.bound decl.node decl.name = r.bound other.node other.name at same
    rw [renamed decl member, renamed other memberToo] at same
    exact (respects.distinct member memberToo).mp same

end Program

end BoxScript
