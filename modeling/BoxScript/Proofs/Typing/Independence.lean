import BoxScript.Proofs.Rules.Confluence
import BoxScript.Proofs.Rules.Questions
import BoxScript.Proofs.Walking.Sites
import BoxScript.Proofs.Walking.Uses
import BoxScript.Typing

/-!
# The rules of a program are independent

Each rule that the walk over a program collects is a script and answers its own questions only
(`Walk.Site.confined`), and no question is answered twice, by rules or beforehand, where the nodes
have identities of their own. So the rules of a parsed program are independent, and their order does
not matter (`Program.solved_alike_in_every_order`).
-/

set_option autoImplicit false

namespace BoxScript

namespace Walk

variable {whole : List Step} {nodes : List Node} {symbols : SymbolTable}

theorem annotations_typeExpr (scope : ScopeId) (type : TypeExpr) :
    ∀ step ∈ typeExpr scope type, ∃ inner, step = .typeExpr scope inner := by
  induction type with
  | named mark name =>
    intro step member
    exact ⟨_, List.mem_singleton.mp member⟩
  | array mark component ih =>
    intro step member
    rcases List.mem_append.mp member with inside | own
    · exact ih step inside
    · exact ⟨_, List.mem_singleton.mp own⟩

/-- Whatever it may ask, a rule of the walk is a script that answers its own questions only. -/
theorem Site.confined {step : Step} (site : Site whole nodes step) :
    ∀ rule ∈ step.rules, ∃ owes, rule.Confined symbols (fun _ => True) owes := by
  have all : ∀ key : FactKey, True := fun _ => trivial
  have members : symbols.AsksMembers fun _ => True := SymbolTable.asksMembers_of_forall all
  have single : ∀ {own : Rule} {owes : List FactKey}, own.Confined symbols (fun _ => True) owes →
      ∀ rule ∈ (Step.rule own).rules, ∃ owes, rule.Confined symbols (fun _ => True) owes := by
    intro own owes confined rule collected
    rw [List.mem_singleton.mp collected]
    exact ⟨owes, confined⟩
  cases site with
  | openScope | returns | members | declareType | declareAnnotated | declareFunction
  | declareInferred => simp [Step.rules]
  | typeExpr walked member =>
    obtain ⟨inner, rfl⟩ := annotations_typeExpr _ _ _ member
    intro rule collected
    rw [List.mem_singleton.mp collected]
    exact ⟨_, inner.rule_confined fun _ _ _ => trivial⟩
  | expr walked member =>
    obtain ⟨expectation, e, rfl⟩ := expressions_expr _ _ _ _ member
    intro rule collected
    simp only [Step.rules] at collected
    split at collected
    · cases collected
    · rename_i found
      rw [List.mem_singleton.mp collected]
      exact ⟨_, Expr.rule_confined members (Expr.asks_of_forall all _ e) found⟩
  | annotated => exact single (Rule.annotated_confined trivial)
  | initializer => exact single (Rule.initializer_confined trivial trivial)
  | inferred => exact single (Rule.inferred_confined trivial)
  | signature =>
    exact single (Rule.signature_confined (fun _ _ => trivial) fun _ _ => trivial)
  | returnsAlways => exact single (Rule.returnsAlways_confined trivial trivial)
  | condition => exact single (Rule.condition_confined trivial)
  | blockReturns => exact single (Rule.blockReturns_confined fun _ _ => trivial)
  | branchesReturn => exact single (Rule.branchesReturn_confined trivial fun _ _ => trivial)
  | returned => exact single (Rule.returned_confined (fun _ _ => trivial) fun _ _ => trivial)

end Walk

namespace Program

/-- The steps of the walk over a program. -/
def steps (program : Program) : List Step := Walk.program program.body

/-- The rules that the walk over a program collects. -/
def rules (program : Program) : List Rule := program.steps.flatMap Step.rules

/-- What the walk over a program knows before the rules are solved. -/
def seeds (program : Program) : List (FactKey × FactValue) := program.steps.flatMap Step.facts

/-- The symbol table that the walk over a program makes. -/
def symbols (program : Program) : SymbolTable := (survey program.steps).symbols

/-- What the solver starts from. -/
def start (program : Program) : Findings := ⟨FactStore.empty.setAll program.seeds, []⟩

theorem independent {program : Program} (nodup : (Stmt.idsOfAll program.body).Nodup)
    (symbols : SymbolTable) :
    Rule.Independent symbols program.rules program.seeds where
  scripted := by
    intro rule member
    obtain ⟨step, walked, collected⟩ := List.mem_flatMap.mp member
    obtain ⟨owes, confined⟩ := (Walk.sited_program program.body step walked).confined rule collected
    exact confined.isScripted
  answers := by
    intro rule member facts writes errors completed
    obtain ⟨step, walked, collected⟩ := List.mem_flatMap.mp member
    obtain ⟨owes, confined⟩ := (Walk.sited_program program.body step walked).confined rule collected
    exact confined.answers completed
  apart := (List.nodup_flatMap.mp (Walk.distinct_program nodup).nodup_produces).2
  unseeded := by
    intro rule member key produced seeded
    exact (Walk.distinct_program nodup).known_not_produced
      (List.mem_flatMap.mpr ⟨rule, member, produced⟩) seeded

/-- Independent rules come to the same slots, the same answers and the same errors in every order,
and the rules of a parsed program are independent of each other and of what is known beforehand. -/
theorem solved_alike_in_every_order :
    (∀ (symbols : SymbolTable) (rules others : List Rule) (seeds : List (FactKey × FactValue)),
      Rule.Independent symbols rules seeds → rules.Perm others →
      let start : Findings := ⟨FactStore.empty.setAll seeds, []⟩
      let found := Findings.solve symbols rules start
      let other := Findings.solve symbols others start
      found.facts.Same other.facts ∧ found.facts.toList = other.facts.toList ∧
        found.errors.Perm other.errors) ∧
      ∀ (file : String) (tokens : List Token) (program : Program),
        parse file tokens = .ok program →
        Rule.Independent program.symbols program.rules program.seeds := by
  constructor
  · intro symbols rules others seeds independent permuted
    obtain ⟨same, errors⟩ := Findings.solve_perm_same independent permuted
    exact ⟨same, same.toList_eq, errors⟩
  · intro file tokens program parsed
    exact independent (nodup_ids_of_parse parsed) program.symbols

/-- An array type that is solved before its component, and after it. -/
theorem solved_alike_in_reverse :
    let array := Rule.arrayType ⟨2, .none⟩ 1
    let component := Rule.typeName ⟨1, .none⟩ "Int" SymbolTable.builtinScope
    let start : Findings := ⟨FactStore.empty.setAll [], []⟩
    let found := Findings.solve .initial [array, component] start
    let other := Findings.solve .initial [component, array] start
    found.facts.Same other.facts ∧ found.facts.toList = other.facts.toList ∧
      found.errors.Perm other.errors ∧
      ∃ program : Program,
        parse "main.sigh" [⟨.openBracket, "[", .within "main.sigh" 0 1⟩,
          ⟨.number, "1", .within "main.sigh" 1 2⟩, ⟨.closeBracket, "]", .within "main.sigh" 2 3⟩,
          .endOfFile ⟨3, "main.sigh"⟩] = .ok program ∧
        Rule.Independent program.symbols program.rules program.seeds := by
  intro array component start found other
  have arrayConfined : (Rule.arrayType ⟨2, .none⟩ 1).Confined .initial (fun _ => True) _ :=
    Rule.arrayType_confined trivial
  have componentConfined : (Rule.typeName ⟨1, .none⟩ "Int" SymbolTable.builtinScope).Confined
      .initial (fun _ => True) _ :=
    Rule.typeName_confined
  have independent : Rule.Independent .initial [array, component] [] := by
    refine ⟨⟨?_, ?_, ?_⟩, by simp⟩
    · exact List.forall_mem_cons.mpr ⟨arrayConfined.isScripted,
        List.forall_mem_singleton.mpr componentConfined.isScripted⟩
    · rintro rule member facts writes errors completed
      rcases List.mem_pair.mp member with rfl | rfl
      · exact arrayConfined.answers completed
      · exact componentConfined.answers completed
    · simp [Rule.Apart, array, component, Rule.arrayType, Rule.typeName, Rule.ofScript]
  obtain ⟨alike, parsed⟩ := solved_alike_in_every_order
  obtain ⟨same, listed, errors⟩ := alike .initial [array, component] [component, array] []
    independent (.swap component array [])
  obtain ⟨program, spelled⟩ : ∃ program : Program,
      parse "main.sigh" [⟨.openBracket, "[", .within "main.sigh" 0 1⟩,
        ⟨.number, "1", .within "main.sigh" 1 2⟩, ⟨.closeBracket, "]", .within "main.sigh" 2 3⟩,
        .endOfFile ⟨3, "main.sigh"⟩] = .ok program :=
    ⟨_, rfl⟩
  exact ⟨same, listed, errors, program, spelled, parsed _ _ program spelled⟩

end Program

end BoxScript
