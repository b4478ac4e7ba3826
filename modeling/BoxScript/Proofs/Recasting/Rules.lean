import BoxScript.Proofs.Recasting.Walk
import BoxScript.Proofs.Walking.Asked

/-!
# The rules of a tree cast anew

Once the symbol tables of two walks go with each other, the rules that the walk over a tree collects
mirror those of the walk over the tree cast anew, rule by rule, and both walks know the same at once
(`Step.Mirrors.rules`). In between, the second walk collects the rules of the parentheses and braces
that are added (`Step.Alike.rules`).
-/

set_option autoImplicit false

namespace BoxScript

/-- What a name is found to mean where it stands. -/
def Step.Lookup.result (symbols : SymbolTable) (asked : Step.Lookup) :
    Except SemanticError.Cause DeclId :=
  symbols.lookup asked.scope asked.name asked.mark.span.start.offset

/-- Names that are looked up in the two tables of a mirror with results that go with each other. -/
def Mirror.LooksAlike (mirror : Mirror) : Option Step.Lookup → Option Step.Lookup → Prop :=
  Option.Rel fun asked other => mirror.Looks (asked.result mirror.left) (other.result mirror.right)

/-- A name that is looked up, and the name that is looked up when the tree is cast anew. -/
structure Recast.Renames (r : Recast) (move : ScopeId → ScopeId) (asked other : Step.Lookup) :
    Prop where
  scope : other.scope = move asked.scope
  mark : other.mark = r.mark asked.mark
  name : other.name = asked.name ∨ other.name = r.name asked.mark.id asked.name

variable {mirror : Mirror} {r : Recast} {nodes : List Node} {move : ScopeId → ScopeId}

theorem Step.Mirrors.asked {step image : Step}
    (mirrors : Step.Mirrors mirror r nodes move step image) :
    Option.Rel (r.Renames move) step.asked image.asked := by
  cases mirrors with
  | @typeExpr scope type _ _ _ =>
    cases type with
    | named mark name => exact .some ⟨rfl, rfl, .inl rfl⟩
    | array mark component => exact .none
  | @expr scope expectation other e _ _ _ _ =>
    cases e with
    | symbol mark name => exact .some ⟨rfl, rfl, .inr rfl⟩
    | «constructor» mark name => exact .some ⟨rfl, rfl, .inl rfl⟩
    | create mark name => exact .some ⟨rfl, rfl, .inl rfl⟩
    | _ => exact .none
  | _ => exact .none

/-- The name of a declaration that a node refers to. -/
def Node.refers? : Node → Option String
  | .type (.named _ called) => some called
  | .expr (.symbol _ called) | .expr (.constructor _ called) | .expr (.create _ called) =>
    some called
  | _ => .none

/-- What is looked up is what a node refers to. -/
theorem Step.Mirrors.refers {step image : Step}
    (mirrors : Step.Mirrors mirror r nodes move step image)
    {asked : Step.Lookup} (is : step.asked = some asked) :
    ∃ node ∈ nodes, node.refers? = some asked.name ∧ node.mark = asked.mark := by
  cases mirrors with
  | @typeExpr scope type inside _ _ =>
    cases type with
    | named mark name =>
      cases is
      exact ⟨_, inside, rfl, rfl⟩
    | array mark component => cases is
  | @expr scope expectation other e inside _ _ _ =>
    cases e with
    | symbol mark name =>
      cases is
      exact ⟨_, inside, rfl, rfl⟩
    | «constructor» mark name =>
      cases is
      exact ⟨_, inside, rfl, rfl⟩
    | create mark name =>
      cases is
      exact ⟨_, inside, rfl, rfl⟩
    | _ => cases is
  | _ => cases is

theorem Mirror.forall₂_parts {es : List Expr} (parts : ∀ e ∈ es, mirror.Parts e (e.recast r)) :
    List.Forall₂ mirror.Parts es (Expr.recastAll r es) := by
  rw [Expr.recastAll_eq, List.forall₂_map_right_iff, List.forall₂_same]
  exact parts

/-- The rules of expressions whose parts mirror one another. -/
theorem Expr.finding_mirrors (faithful : mirror.Faithful)
    (named : mirror.lenient ∨ ∀ id name, r.name id name = name) {scope : ScopeId}
    {expectation other : Expectation} {e : Expr} (marks : mirror.Marks e.mark (r.mark e.mark))
    (expects : mirror.Expects expectation other) (covers : mirror.Covers r e)
    (looks : mirror.LooksAlike (Step.asked (.expr scope expectation e))
      (Step.asked (.expr (move scope) other (e.inside r)))) :
    List.Forall₂ (Rule.Mirrors mirror) (Step.rules (.expr scope expectation e))
        (Step.rules (.expr (move scope) other (e.inside r))) ∧
      Step.facts (.expr (move scope) other (e.inside r)) =
        Step.facts (.expr scope expectation e) := by
  have one : ∀ {rule image : Rule}, rule.Mirrors mirror image →
      List.Forall₂ (Rule.Mirrors mirror) [rule] [image] := fun mirrors => .cons mirrors .nil
  cases e with
  | int | float | string | bool | null => exact ⟨.nil, rfl⟩
  | symbol mark name =>
    refine ⟨one (Rule.symbol_mirrors faithful marks (named.imp_right fun kept => kept _ _) ?_), rfl⟩
    obtain ⟨looks⟩ := looks
    exact looks
  | «constructor» mark name =>
    obtain ⟨looks⟩ := looks
    exact ⟨one (Rule.constructor_mirrors faithful marks looks), rfl⟩
  | create mark name =>
    obtain ⟨looks⟩ := looks
    exact ⟨one (Rule.create_mirrors faithful marks looks), rfl⟩
  | array mark elements =>
    refine ⟨one (Rule.array_mirrors marks ?_ expects), rfl⟩
    rw [List.forall₂_map_left_iff, List.forall₂_map_right_iff]
    exact (Mirror.forall₂_parts covers).imp fun _ _ parts => parts.reads
  | paren mark inner => exact ⟨one (Rule.paren_mirrors marks covers.reads), rfl⟩
  | unary mark op operand => exact ⟨one (Rule.unary_mirrors marks covers.reads), rfl⟩
  | binary mark op left right =>
    exact ⟨one (Rule.binary_mirrors marks covers.1.reads covers.2.reads), rfl⟩
  | assign mark target value =>
    exact ⟨one (Rule.assign_mirrors faithful marks covers.2.2 covers.1 covers.2.1.reads), rfl⟩
  | call mark callee given =>
    exact ⟨one (Rule.call_mirrors marks covers.1 (Mirror.forall₂_parts covers.2)), rfl⟩
  | index mark owner place => exact ⟨one (Rule.index_mirrors marks covers.1 covers.2), rfl⟩
  | field mark receiver name => exact ⟨one (Rule.field_mirrors faithful marks covers.reads), rfl⟩
  | member mark receiver name => exact ⟨one (Rule.member_mirrors faithful marks covers.reads), rfl⟩

/-- Steps that mirror one another collect rules that do, and know the same at once. -/
theorem Step.Mirrors.rules (faithful : mirror.Faithful)
    (named : mirror.lenient ∨ ∀ id name, r.name id name = name) {step image : Step}
    (mirrors : Step.Mirrors mirror r nodes move step image)
    (looks : mirror.LooksAlike step.asked image.asked) :
    List.Forall₂ (Rule.Mirrors mirror) step.rules image.rules ∧ image.facts = step.facts := by
  cases mirrors with
  | openScope | declare | setMembers | returns => exact ⟨.nil, rfl⟩
  | rule mirrors => exact ⟨.cons mirrors .nil, rfl⟩
  | expr _ marks expects covers =>
    exact Expr.finding_mirrors faithful named marks expects covers looks
  | @typeExpr scope type _ marks component =>
    cases type with
    | named mark name =>
      obtain ⟨looks⟩ := looks
      exact ⟨.cons (Rule.typeName_mirrors faithful marks looks) .nil, rfl⟩
    | array mark inner =>
      refine ⟨.cons (Rule.arrayType_mirrors marks ?_) .nil, rfl⟩
      rw [TypeExpr.id_recast]
      exact component mark inner rfl

/-- The rule of parentheses or braces that are added, by one of some steps. -/
def Rule.Added (r : Recast) (nodes : List Node) (whole : List Step) (rule : Rule) : Prop :=
  ∃ step ∈ whole, step.Added r nodes ∧ step.rules = [rule]

/-- The rules of two walks mirror one another, those of what is added apart, and the walks know the
same at once. -/
theorem Step.Alike.rules (faithful : mirror.Faithful)
    (named : mirror.lenient ∨ ∀ id name, r.name id name = name) {steps images whole : List Step}
    (alike : Step.Alike mirror r nodes move steps images) (within : images ⊆ whole)
    (looks : ∀ step ∈ steps, ∀ image ∈ images, Step.Mirrors mirror r nodes move step image →
      mirror.LooksAlike step.asked image.asked) :
    Matched (Rule.Mirrors mirror) (Rule.Added r nodes whole) (steps.flatMap Step.rules)
        (images.flatMap Step.rules) ∧
      images.flatMap Step.facts = steps.flatMap Step.facts := by
  induction alike with
  | nil => exact ⟨.nil, rfl⟩
  | @cons step image _ _ first _ ih =>
    obtain ⟨rules, facts⟩ := first.rules faithful named
      (looks step List.mem_cons_self image List.mem_cons_self first)
    obtain ⟨rest, others⟩ := ih (List.cons_subset.mp within).2 fun step member image found =>
      looks step (List.mem_cons_of_mem _ member) image (List.mem_cons_of_mem _ found)
    simp only [List.flatMap_cons]
    exact ⟨(Matched.of_forall₂ rules).append rest, by rw [facts, others]⟩
  | @skip image _ _ added _ ih =>
    obtain ⟨here, within⟩ := List.cons_subset.mp within
    obtain ⟨rest, others⟩ := ih within fun step member image found =>
      looks step member image (List.mem_cons_of_mem _ found)
    obtain ⟨rule, own, none⟩ : ∃ rule, image.rules = [rule] ∧ image.facts = [] := by
      obtain ⟨key, node, copies, _⟩ := added
      cases copies <;> exact ⟨_, rfl, rfl⟩
    simp only [List.flatMap_cons, own, none, List.nil_append, List.singleton_append]
    exact ⟨.skip ⟨image, here, added, own⟩ rest, others⟩

/-- Where nothing is added, the rules mirror one another one by one. -/
theorem Step.Alike.rules_of_unwrapped (unwrapped : r.Unwrapped) (faithful : mirror.Faithful)
    (named : mirror.lenient ∨ ∀ id name, r.name id name = name) {steps images : List Step}
    (alike : Step.Alike mirror r nodes move steps images)
    (looks : ∀ step ∈ steps, ∀ image ∈ images, Step.Mirrors mirror r nodes move step image →
      mirror.LooksAlike step.asked image.asked) :
    List.Forall₂ (Rule.Mirrors mirror) (steps.flatMap Step.rules) (images.flatMap Step.rules) ∧
      images.flatMap Step.facts = steps.flatMap Step.facts := by
  obtain ⟨rules, facts⟩ := alike.rules faithful named (List.Subset.refl _) looks
  refine ⟨rules.forall₂ ?_, facts⟩
  rintro rule ⟨step, _, added, _⟩
  exact unwrapped.not_added step added

/-- What is known at once is no type of a struct or box, so it mirrors itself. -/
theorem Step.answers_facts (mirror : Mirror) (steps : List Step) :
    mirror.Writes (steps.flatMap Step.facts) (steps.flatMap Step.facts) := by
  refine List.forall₂_same.mpr fun fact member => ⟨rfl, ?_⟩
  obtain ⟨step, _, known⟩ := List.mem_flatMap.mp member
  cases step with
  | expr scope expectation e =>
    cases e <;> first
      | (obtain rfl := List.mem_singleton.mp known; exact .type trivial)
      | cases known
  | returns mark value =>
    obtain rfl := List.mem_singleton.mp known
    exact .flag
  | _ => cases known

/-- Stores with nothing in them mirror one another. -/
theorem Mirror.stores_empty (mirror : Mirror) : mirror.Stores FactStore.empty FactStore.empty := by
  intro key image _
  rw [FactStore.get?_empty, FactStore.get?_empty]
  exact .none

end BoxScript
