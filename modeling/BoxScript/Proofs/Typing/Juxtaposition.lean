import BoxScript.Proofs.Recasting.Rules
import BoxScript.Proofs.Recasting.Tables
import BoxScript.Proofs.Rules.SideBySide
import BoxScript.Proofs.Typing.Found

/-!
# Programs that are put after each other

Two lists of statements can be analysed as one program. If no name that the one declares at its top
level is declared at the top level of the other or referred to in it, the analysis of both is the
analysis of each: both share one symbol table, one store and the passes of one solver, but names
mean in each part what they mean without the other, and the rules of each part settle in the same
passes with the same results. So the program is accepted if both parts are, its errors are those of
the first part and then those of the second one, and the types and the analysis of returns are those
of the parts (`Program.analyzed_apart`).
-/

set_option autoImplicit false
set_option maxRecDepth 100000

namespace BoxScript

/-- Statements of which no name is declared at the top level of others or referred to in them. -/
def Stmt.StrangeTo (body others : List Stmt) : Prop :=
  ∀ s ∈ body, ∀ name ∈ s.declaredName?, (∀ other ∈ others, other.declaredName? ≠ some name) ∧
    ∀ node ∈ Stmt.nodesOfAll others, node.refers? ≠ some name

/-- Statements whose nodes come after those of others, by their identities and by their places. -/
def Stmt.Follow (body others : List Stmt) : Prop :=
  ∀ node ∈ Stmt.nodesOfAll body, ∀ other ∈ Stmt.nodesOfAll others,
    node.id < other.id ∧ node.mark.span.start.offset < other.mark.span.start.offset

instance (body others : List Stmt) : Decidable (Stmt.StrangeTo body others) :=
  inferInstanceAs (Decidable (∀ s ∈ body, ∀ name ∈ s.declaredName?,
    (∀ other ∈ others, other.declaredName? ≠ some name) ∧
      ∀ node ∈ Stmt.nodesOfAll others, node.refers? ≠ some name))

instance (body others : List Stmt) : Decidable (Stmt.Follow body others) :=
  inferInstanceAs (Decidable (∀ node ∈ Stmt.nodesOfAll body, ∀ other ∈ Stmt.nodesOfAll others,
    node.id < other.id ∧ node.mark.span.start.offset < other.mark.span.start.offset))

/-! ## Sorting -/

section Sorting

variable {α : Type} {le : α → α → Bool}

/-- Lists whose items are told apart by a test are split at one place only. -/
theorem split_unique {test : α → Bool} {first second other more : List α}
    (same : first ++ second = other ++ more) (firstTrue : ∀ a ∈ first, test a = true)
    (secondFalse : ∀ a ∈ second, test a = false) (otherTrue : ∀ a ∈ other, test a = true)
    (moreFalse : ∀ a ∈ more, test a = false) : first = other ∧ second = more := by
  have part : ∀ {one two : List α}, (∀ a ∈ one, test a = true) → (∀ a ∈ two, test a = false) →
      (one ++ two).filter test = one := by
    intro one two holds fails
    rw [List.filter_append, List.filter_eq_self.mpr holds,
      List.filter_eq_nil_iff.mpr (by simpa using fails), List.append_nil]
  have equal : first = other := by
    rw [← part firstTrue secondFalse, same, part otherTrue moreFalse]
  subst equal
  exact ⟨rfl, List.append_cancel_left same⟩

/-- Sorting puts an item between what it does not come before and what it comes before. -/
theorem exists_inserted (trans : ∀ a b c, le a b = true → le b c = true → le a c = true)
    (total : ∀ a b, (le a b || le b a) = true) (item : α) (rest : List α) : ∃ before after,
    (item :: rest).mergeSort le = before ++ item :: after ∧ rest.mergeSort le = before ++ after ∧
      (∀ b ∈ before, (!le item b) = true) ∧ ∀ b ∈ after, (!le item b) = false := by
  obtain ⟨before, after, whole, without, less⟩ := List.mergeSort_cons trans total item rest
  have sorted := List.pairwise_mergeSort trans total (item :: rest)
  rw [whole] at sorted
  refine ⟨before, after, whole, without, less, fun b member => ?_⟩
  have comesBefore := List.rel_of_pairwise_cons (List.pairwise_append.mp sorted).2.1 member
  simp [comesBefore]

/-- A list is sorted by sorting what is small and what is large in it. -/
theorem mergeSort_eq_append (trans : ∀ a b c, le a b = true → le b c = true → le a c = true)
    (total : ∀ a b, (le a b || le b a) = true) (small : α → Bool) (items : List α)
    (below : ∀ a ∈ items, ∀ b ∈ items, small a = true → small b = false → le b a = false) :
    items.mergeSort le =
      (items.filter small).mergeSort le ++ (items.filter (!small ·)).mergeSort le := by
  induction items with
  | nil => simp
  | cons item rest ih =>
    have restBelow := ih fun a memberA b memberB =>
      below a (List.mem_cons_of_mem _ memberA) b (List.mem_cons_of_mem _ memberB)
    have inserted := exists_inserted trans total item
    obtain ⟨before, after, whole, without, less, more⟩ := inserted rest
    rw [whole]
    rw [without] at restBelow
    cases is : small item with
    | true =>
      obtain ⟨first, second, wholeSmall, withoutSmall, lessSmall, moreSmall⟩ :=
        inserted (rest.filter small)
      rw [withoutSmall, List.append_assoc] at restBelow
      have large : ∀ b ∈ second ++ (rest.filter (!small ·)).mergeSort le,
          (!le item b) = false := by
        intro b member
        rcases List.mem_append.mp member with here | there
        · exact moreSmall b here
        · obtain ⟨inside, notSmall⟩ := List.mem_filter.mp (List.mem_mergeSort.mp there)
          have less := below item List.mem_cons_self b (List.mem_cons_of_mem _ inside) is
            (by simpa using notSmall)
          simpa [less] using total item b
      obtain ⟨rfl, rfl⟩ := split_unique restBelow less more lessSmall large
      simp [is, wholeSmall]
    | false =>
      obtain ⟨first, second, wholeLarge, withoutLarge, lessLarge, moreLarge⟩ :=
        inserted (rest.filter (!small ·))
      rw [withoutLarge, ← List.append_assoc] at restBelow
      have little : ∀ b ∈ (rest.filter small).mergeSort le ++ first, (!le item b) = true := by
        intro b member
        rcases List.mem_append.mp member with here | there
        · obtain ⟨inside, isSmall⟩ := List.mem_filter.mp (List.mem_mergeSort.mp here)
          have less := below b (List.mem_cons_of_mem _ inside) item List.mem_cons_self isSmall is
          simp [less]
        · exact lessLarge b there
      obtain ⟨rfl, rfl⟩ := split_unique restBelow less more little moreLarge
      simp [is, wholeLarge]

end Sorting

/-! ## Parts of a program -/

/-- The steps for statements of the root that are gone through beside others. -/
def Walk.part (next : ScopeId) (body : List Stmt) : List Step :=
  hoist 1 body ++ stmts 1 next none body

/-- Statements that make up a program together with others. Their scopes get other numbers in the
program, and the others are gone through with scopes from a number on. -/
structure Program.Part (whole : Program) (body rest : List Stmt) (move : ScopeId → ScopeId)
    (later : ScopeId) : Prop where
  injective : ∀ {scope other : ScopeId}, move scope = move other → scope = other
  outermost : move SymbolTable.builtinScope = SymbolTable.builtinScope
  root : move 1 = 1
  shifts : Shifts move 2
  beyond : 1 < later
  away : ∀ scope, scope < 1 + Step.opened (Walk.program body) → later ≤ move scope →
    later + Step.opened (Walk.stmts 1 later none rest) ≤ move scope
  steps : ∀ {R : Step → Step → Prop},
    R (.openScope 1 .root SymbolTable.builtinScope) (.openScope 1 .root SymbolTable.builtinScope) →
    List.Forall₂ R (Walk.hoist 1 body) (Walk.hoist 1 body) →
    List.Forall₂ R (Walk.stmts 1 2 none body) (Walk.stmts 1 (move 2) none body) →
    Matched R (· ∈ Walk.part later rest) (Walk.program body) whole.steps
  strange : Stmt.StrangeTo rest body
  apart : ∀ node ∈ Stmt.nodesOfAll body, ∀ other ∈ Stmt.nodesOfAll rest, node.id ≠ other.id

namespace Walk

theorem hoist_append (scope : ScopeId) (first second : List Stmt) :
    hoist scope (first ++ second) = hoist scope first ++ hoist scope second := by
  induction first with
  | nil => rfl
  | cons s rest ih => cases s <;> simp [hoist, ih]

theorem stmts_append (scope next : ScopeId) (enclosing : Option FunctionDecl)
    (first second : List Stmt) : stmts scope next enclosing (first ++ second) =
      stmts scope next enclosing first ++
        stmts scope (next + Step.opened (stmts scope next enclosing first)) enclosing second := by
  induction first generalizing next with
  | nil => rfl
  | cons s rest ih =>
    simp only [List.cons_append, stmts, ih, List.append_assoc, Step.opened_append, Nat.add_assoc]

/-- What statements of the root declare: a name of their own at the top level, or something in a
scope that the walk opens for them. -/
theorem declares_of_part {next : ScopeId} (inside : 1 < next) {body : List Stmt} {scope : ScopeId}
    {name : String} (declares : Step.Strange (· ∈ part next body) scope name) :
    (scope = 1 ∧ ∃ s ∈ body, s.declaredName? = some name) ∨
      (next ≤ scope ∧ scope < next + Step.opened (stmts 1 next none body)) := by
  obtain ⟨kind, mark, position, member⟩ := declares
  have declared := Step.mem_declared.mpr ⟨name, kind, mark, position, member, rfl⟩
  have ordered : Step.Ordered next (part next body) := Step.ordered_append.mpr
    ⟨ordered_hoist Nat.zero_lt_one inside body, by
      rw [opened_hoist]
      exact ordered_stmts Nat.zero_lt_one inside none body⟩
  by_cases isOpen : scope < next
  · left
    rw [part, Step.declared_append, declared_hoist, declared_stmts 1 isOpen] at declared
    by_cases same : 1 = scope
    · simp only [same, if_true, List.mem_append, List.mem_flatMap] at declared
      refine ⟨same.symm, ?_⟩
      rcases declared with ⟨s, inBody, holds⟩ | ⟨s, inBody, holds⟩
      · refine ⟨s, inBody, ?_⟩
        cases s <;> simp_all [hoisted, Stmt.declaredName?]
      · refine ⟨s, inBody, ?_⟩
        cases s <;> simp_all [introduced, Stmt.declaredName?]
    · simp [same] at declared
  · right
    refine ⟨Nat.le_of_not_lt isOpen, Nat.lt_of_not_le fun closed => ?_⟩
    rw [ordered.declared_eq_nil] at declared
    · cases declared
    · rw [part, Step.opened_append, opened_hoist, Nat.zero_add]
      exact closed

/-- The nodes that steps for statements of the root answer for are those of the statements. -/
theorem node_of_part {next : ScopeId} {body : List Stmt} {step : Step}
    (member : step ∈ part next body) {node : NodeId} {role : Role}
    (used : (node, role) ∈ step.uses) : ∃ own ∈ Stmt.nodesOfAll body, own.id = node := by
  have counted : Step.tally node role (hoist 1 body) +
      Step.tally node role (stmts 1 next none body) ≤ (Stmt.idsOfAll body).count node :=
    tally_stmts_le 1 next 1 none body
  rw [← Step.tally_append] at counted
  have positive : 0 < Step.tally node role (part next body) :=
    List.count_pos_iff.mpr (List.mem_flatMap.mpr ⟨step, member, used⟩)
  have inside := List.count_pos_iff.mp (Nat.lt_of_lt_of_le positive counted)
  rw [← Stmt.map_id_nodesOfAll] at inside
  exact List.mem_map.mp inside

/-- The steps that declare functions, structs and boxes collect no rule and know nothing. -/
theorem silent_hoist (scope : ScopeId) (body : List Stmt) :
    (hoist scope body).flatMap Step.rules = [] ∧ (hoist scope body).flatMap Step.facts = [] := by
  induction body with
  | nil => exact ⟨rfl, rfl⟩
  | cons s rest ih => cases s <;> exact ih

theorem silent_program (body : List Stmt) :
    (program body).flatMap Step.rules = (stmts 1 2 none body).flatMap Step.rules ∧
      (program body).flatMap Step.facts = (stmts 1 2 none body).flatMap Step.facts := by
  obtain ⟨noRules, noFacts⟩ := silent_hoist 1 body
  simp only [program, List.flatMap_cons, List.flatMap_append, noRules, noFacts]
  exact ⟨rfl, rfl⟩

end Walk

/-! ## Names of a part -/

namespace Program

/-- How the analysis of a part is compared with that of the program: nodes, places and declarations
of the part are taken for themselves. -/
def partMirror (whole : Program) (body : List Stmt) (goes : DeclId → DeclId → Prop) : Mirror where
  left := (survey (Walk.program body)).symbols
  right := whole.symbols
  reads key image := image = key ∧ ∃ node ∈ Stmt.nodesOfAll body, node.id = key.node
  decls := goes
  spans span place := place = span ∧ ∃ node ∈ Stmt.nodesOfAll body, node.mark.span = span
  owners node := ∃ own ∈ Stmt.nodesOfAll body, own.id = node
  lenient := False

theorem partMirror_same (whole : Program) (body : List Stmt) (goes : DeclId → DeclId → Prop) :
    (partMirror whole body goes).Same :=
  fun _ _ reads => reads.1

namespace Part

variable {whole : Program} {body rest : List Stmt} {move : ScopeId → ScopeId} {later : ScopeId}
  {goes : DeclId → DeclId → Prop}

theorem fits (whole : Program) (body : List Stmt) (goes : DeclId → DeclId → Prop)
    (steps : List Step) :
    Recast.none.Fits (partMirror whole body goes) (Stmt.nodesOfAll body) steps where
  own node member _ := ⟨rfl, node, member, rfl⟩
  spans node member := ⟨rfl, node, member, rfl⟩
  copies _ _ _ _ _ wraps := (Recast.none_unwrapped.not_wraps _ _ wraps).elim
  names := .inr fun _ _ => rfl

variable (part : Program.Part whole body rest move later)

include part

variable (goes) in
/-- The walk over the part and over the part in the program. -/
theorem alike_stmts : List.Forall₂ (Step.Mirrors (partMirror whole body goes) .none
      (Stmt.nodesOfAll body) move) (Walk.hoist 1 body) (Walk.hoist 1 body) ∧
    List.Forall₂ (Step.Mirrors (partMirror whole body goes) .none (Stmt.nodesOfAll body) move)
      (Walk.stmts 1 2 none body) (Walk.stmts 1 (move 2) none body) := by
  have hoisted : Step.Alike (partMirror whole body goes) .none (Stmt.nodesOfAll body) move
      (Walk.hoist 1 body) (Walk.hoist (move 1) (Stmt.recastAll .none body)) :=
    Walk.alike_hoist (fits whole body goes []) body (List.Subset.refl _)
  have walked : Step.Alike (partMirror whole body goes) .none (Stmt.nodesOfAll body) move
      (Walk.stmts 1 2 none body) (Walk.stmts (move 1) (move 2) none (Stmt.recastAll .none body)) :=
    Walk.alike_stmts (fits whole body goes _) Walk.encloses_none body (List.Subset.refl _)
      part.shifts (List.Subset.refl _)
  rw [Stmt.recastAll_none, part.root] at hoisted walked
  exact ⟨hoisted.forall₂ Recast.none_unwrapped.not_added,
    walked.forall₂ Recast.none_unwrapped.not_added⟩

variable (goes) in
theorem alike : Matched (Step.Mirrors (partMirror whole body goes) .none (Stmt.nodesOfAll body)
    move) (· ∈ Walk.part later rest) (Walk.program body) whole.steps := by
  refine part.steps ?_ (part.alike_stmts goes).1 (part.alike_stmts goes).2
  have opened : Step.Mirrors (partMirror whole body goes) .none (Stmt.nodesOfAll body) move
      (.openScope 1 .root SymbolTable.builtinScope)
      (.openScope (move 1) .root (move SymbolTable.builtinScope)) := .openScope
  rwa [part.root, part.outermost] at opened

omit part in
theorem name_declaration (decl : Declaration) :
    (Recast.none.declaration move decl).name = decl.name := by
  unfold Recast.declaration
  split
  · rfl
  · cases kind : decl.kind <;> rfl

/-- What the rest of the program declares in the scopes of the part are names of its top level. -/
theorem strange_cases {scope : ScopeId} {name : String}
    (bound : scope < 1 + Step.opened (Walk.program body))
    (declares : Step.Strange (· ∈ Walk.part later rest) (move scope) name) :
    scope = 1 ∧ ∃ s ∈ rest, s.declaredName? = some name := by
  rcases Walk.declares_of_part part.beyond declares with ⟨root, declared⟩ | ⟨low, high⟩
  · exact ⟨part.injective (root.trans part.root.symm), declared⟩
  · exact absurd high (Nat.not_lt.mpr (part.away scope bound low))

omit part in
/-- What the root of a part declares are the names of its top level. -/
theorem declares_of_root {decl : Declaration}
    (member : decl ∈ Step.declared 1 (Walk.program body)) :
    ∃ s ∈ body, s.declaredName? = some decl.name := by
  obtain ⟨name, kind, mark, position, walked, rfl⟩ := Step.mem_declared.mp member
  have inPart : .declare 1 name kind mark position ∈ Walk.part 2 body := by
    rcases List.mem_cons.mp walked with first | further
    · cases first
    · exact further
  rcases Walk.declares_of_part Nat.one_lt_two ⟨_, _, _, inPart⟩ with ⟨_, declared⟩ | ⟨low, _⟩
  · exact declared
  · exact absurd low (by decide)

theorem tells : Recast.none.Tells (partMirror whole body goes) move (· ∈ Walk.part later rest)
    (Walk.program body) where
  injective := part.injective
  outermost := part.outermost
  distinct _ _ := by rw [name_declaration, name_declaration]
  apart := by
    intro scope decl member strange
    rw [name_declaration] at strange
    obtain ⟨rfl, s, inRest, named⟩ := part.strange_cases (Walk.lt_of_declared member) strange
    obtain ⟨other, inBody, same⟩ := declares_of_root member
    exact (part.strange s inRest _ named).1 other inBody same
  named := .inr fun _ _ => rfl

theorem owns : Recast.none.Owns (partMirror whole body goes) move (· ∈ Walk.part later rest)
    (Walk.program body) where
  owned reads := reads.2
  silent := by
    rintro owner ⟨own, inside, rfl⟩ scope member
    obtain ⟨other, outside, same⟩ := Walk.node_of_part member
      (List.mem_append_right _ List.mem_cons_self)
    exact part.apart own inside other outside same.symm
  closed := by
    intro owner scope member name strange
    obtain ⟨kind, parent, opened, unordered⟩ := Walk.opened_of_setMembers member
    obtain ⟨rfl, _⟩ := part.strange_cases (Walk.lt_of_opened opened) strange
    have root : .openScope 1 .root SymbolTable.builtinScope ∈ Walk.program body :=
      List.mem_cons_self
    rw [Walk.kind_unique opened root] at unordered
    cases unordered
  kept _ _ _ := name_declaration _

/-- A name means in the program what it means in the part. -/
theorem looksAlike
    (recasts : (partMirror whole body goes).left.Recasts .none move (· ∈ Walk.part later rest)
      (Walk.program body) goes (partMirror whole body goes).right)
    {step image : Step} (member : step ∈ Walk.program body)
    (mirrors : Step.Mirrors (partMirror whole body goes) .none (Stmt.nodesOfAll body) move step
      image) :
    (partMirror whole body goes).LooksAlike step.asked image.asked := by
  have renames := mirrors.asked
  have refers : ∀ asked, step.asked = some asked → _ := fun asked => mirrors.refers
  have inside : ∀ asked, step.asked = some asked → _ := fun asked => Walk.asks_program member
  generalize step.asked = asked at renames refers inside
  generalize image.asked = other at renames
  cases renames with
  | none => exact .none
  | @some asked other renames =>
    obtain ⟨scope, mark, name⟩ := asked
    obtain ⟨scope', mark', name'⟩ := other
    obtain ⟨rfl, rfl, same⟩ := renames
    obtain rfl : name' = name := same.elim id id
    obtain ⟨node, inBody, referred, _⟩ := refers _ rfl
    have bound : scope < (survey (Walk.program body)).symbols.scopes.size := by
      rw [size_survey]
      exact (inside _ rfl).2
    refine .some (looks_survey (part.alike goes) rfl rfl recasts part.outermost
      (Array.getElem?_eq_getElem bound) (.inr rfl) ?_ ?_ ?_)
    · intro home decl _
      rw [name_declaration]
    · intro home there present strange
      have homeBound : home < 1 + Step.opened (Walk.program body) := by
        rw [← size_survey]
        exact (Array.getElem?_eq_some_iff.mp present).1
      obtain ⟨_, s, inRest, named⟩ := part.strange_cases homeBound strange
      exact (part.strange s inRest _ named).2 node inBody referred
    · exact fun _ _ _ _ => Iff.rfl

/-- The rules of the part, what it knows at once and the duplicate names in it are found in the
program. -/
theorem mirrored : ∃ goes,
    List.Forall₂ (Rule.Mirrors (partMirror whole body goes))
        ((Walk.program body).flatMap Step.rules)
        ((Walk.stmts 1 (move 2) none body).flatMap Step.rules) ∧
      (Walk.stmts 1 (move 2) none body).flatMap Step.facts =
        (Walk.program body).flatMap Step.facts ∧
      Matched (partMirror whole body goes).Errors
        (Survey.Stray (· ∈ Walk.part later rest)) (survey (Walk.program body)).errors.toList
        (survey whole.steps).errors.toList := by
  obtain ⟨goes, recasts⟩ := recasts_survey part.tells (part.alike fun _ _ => False)
  have faithful : (partMirror whole body goes).Faithful :=
    faithful_survey (part.alike goes) rfl rfl part.owns recasts.symbols
  have walked : Walk.stmts 1 2 none body ⊆ Walk.program body := fun step member =>
    List.mem_cons_of_mem _ (List.mem_append_right _ member)
  have looks : ∀ step ∈ Walk.stmts 1 2 none body, ∀ image ∈ Walk.stmts 1 (move 2) none body,
      Step.Mirrors (partMirror whole body goes) .none (Stmt.nodesOfAll body) move step image →
      (partMirror whole body goes).LooksAlike step.asked image.asked := fun step member _ _ =>
    part.looksAlike recasts.symbols (walked member)
  obtain ⟨rules, facts⟩ := Step.Alike.rules_of_unwrapped Recast.none_unwrapped faithful
    (.inr fun _ _ => rfl) (.of_forall₂ (part.alike_stmts goes).2) looks
  rw [(Walk.silent_program body).1, (Walk.silent_program body).2]
  exact ⟨goes, rules, facts, recasts.errors⟩

/-! ## What the rest of the program leaves alone -/

/-- The rest settles no question about the part. -/
theorem not_reads {step : Step} (member : step ∈ Walk.part later rest) {key asked : FactKey}
    (answered : key ∈ step.answers) : ¬ (partMirror whole body goes).reads asked key := by
  rintro ⟨rfl, node, inside, same⟩
  obtain ⟨other, outside, sameToo⟩ :=
    Walk.node_of_part member (Step.mem_uses_of_answers answered)
  exact part.apart node inside other outside (same.trans sameToo.symm)

theorem leaves (within : Walk.part later rest ⊆ whole.steps) :
    ∀ rule ∈ (Walk.stmts 1 later none rest).flatMap Step.rules,
      rule.Leaves (partMirror whole body goes) := by
  intro rule member
  obtain ⟨step, walked, collected⟩ := List.mem_flatMap.mp member
  have inPart : step ∈ Walk.part later rest := List.mem_append_right _ walked
  constructor
  · intro key produced asked
    exact part.not_reads inPart
      (List.mem_append_right _ (List.mem_flatMap.mpr ⟨rule, collected, produced⟩))
  · intro facts writes errors completed
    obtain ⟨owes, confined⟩ :=
      (Walk.sited_program whole.body step (within inPart)).confined rule collected
    exact confined.answers completed

theorem facts_apart : ∀ write ∈ (Walk.stmts 1 later none rest).flatMap Step.facts,
    ∀ asked, ¬ (partMirror whole body goes).reads asked write.1 := by
  intro write member asked
  obtain ⟨step, walked, known⟩ := List.mem_flatMap.mp member
  exact part.not_reads (List.mem_append_right _ walked)
    (List.mem_append_left _ (List.mem_map_of_mem known))

/-- What is declared in the part lies where one of its nodes does. -/
theorem span_of_declare {scope : ScopeId} {name : String} {kind : DeclKind} {mark : Mark}
    {position : Nat} (member : .declare scope name kind mark position ∈ Walk.part (move 2) body) :
    ∃ node ∈ Stmt.nodesOfAll body, node.mark.span = mark.span := by
  have alike := part.alike_stmts fun _ _ => False
  have found : ∃ step, Step.Mirrors (partMirror whole body fun _ _ => False) .none
      (Stmt.nodesOfAll body) move step (.declare scope name kind mark position) := by
    rcases List.mem_append.mp member with hoisted | walked
    · obtain ⟨step, _, mirrors⟩ := exists_of_forall₂_right alike.1 hoisted
      exact ⟨step, mirrors⟩
    · obtain ⟨step, _, mirrors⟩ := exists_of_forall₂_right alike.2 walked
      exact ⟨step, mirrors⟩
  obtain ⟨step, mirrors⟩ := found
  cases mirrors with
  | declare marks => exact marks.spans.2

end Part

/-! ## Two parts -/

section Parts

variable {mark one two : Mark} {first second : List Stmt}

/-- The walk over two lists of statements. -/
theorem steps_append (mark : Mark) (first second : List Stmt) :
    steps ⟨mark, first ++ second⟩ = .openScope 1 .root SymbolTable.builtinScope ::
      ((Walk.hoist 1 first ++ Walk.hoist 1 second) ++ (Walk.stmts 1 2 none first ++
        Walk.stmts 1 (2 + Step.opened (Walk.stmts 1 2 none first)) none second)) := by
  rw [steps, Walk.program, Walk.hoist_append, Walk.stmts_append]

theorem flatMap_steps {α : Type} {collect : Step → List α}
    (silent : ∀ body, (Walk.hoist 1 body).flatMap collect = [])
    (opening : collect (.openScope 1 .root SymbolTable.builtinScope) = []) :
    (steps ⟨mark, first ++ second⟩).flatMap collect =
      (Walk.stmts 1 2 none first).flatMap collect ++
        (Walk.stmts 1 (2 + Step.opened (Walk.stmts 1 2 none first)) none second).flatMap
          collect := by
  rw [steps_append, List.flatMap_cons, opening]
  simp only [List.flatMap_append, silent, List.nil_append]

/-- The scopes of the second part have numbers after those of the first one. -/
def moveAfter (first : List Stmt) (scope : ScopeId) : ScopeId :=
  if scope ≤ 1 then scope else scope + Step.opened (Walk.stmts 1 2 none first)

theorem part_first (mark : Mark) (strange : Stmt.StrangeTo second first)
    (follow : Stmt.Follow first second) : Part ⟨mark, first ++ second⟩ first second id
      (2 + Step.opened (Walk.stmts 1 2 none first)) where
  injective := id
  outermost := rfl
  root := rfl
  shifts _ := rfl
  beyond := Nat.lt_of_lt_of_le Nat.one_lt_two (Nat.le_add_right _ _)
  away scope bound above := by
    refine absurd (Nat.lt_of_lt_of_le bound (Nat.le_of_eq ?_)) (Nat.not_lt.mpr above)
    simp only [Walk.program, Step.opened_openScope_cons, Step.opened_append, Walk.opened_hoist]
    omega
  steps opened hoisted walked := by
    rw [steps_append]
    refine .cons opened (.append (.append_extra (.of_forall₂ hoisted) ?_)
      (.append_extra (.of_forall₂ walked) ?_))
    · exact fun step => List.mem_append_left _
    · exact fun step => List.mem_append_right _
  strange := strange
  apart node inside other outside := Nat.ne_of_lt (follow node inside other outside).1

theorem part_second (mark : Mark) (strange : Stmt.StrangeTo first second)
    (follow : Stmt.Follow first second) :
    Part ⟨mark, first ++ second⟩ second first (moveAfter first) 2 where
  injective := by
    intro scope other same
    unfold moveAfter at same
    split at same <;> split at same <;> grind
  outermost := rfl
  root := rfl
  shifts more := by
    have above : ¬ 2 + more ≤ 1 :=
      Nat.not_le.mpr (Nat.lt_of_lt_of_le Nat.one_lt_two (Nat.le_add_right 2 more))
    rw [moveAfter, moveAfter, if_neg above, if_neg (by decide), Nat.add_right_comm]
  beyond := Nat.one_lt_two
  away scope _ above := by
    unfold moveAfter at above ⊢
    split at above
    · rename_i low
      exact absurd above (Nat.not_le.mpr (Nat.lt_of_le_of_lt low Nat.one_lt_two))
    · rename_i high
      rw [if_neg high]
      exact Nat.add_le_add_right (Nat.lt_of_not_le high) _
  steps opened hoisted walked := by
    rw [steps_append]
    refine .cons opened (.append (.extra_append ?_ (.of_forall₂ hoisted))
      (.extra_append ?_ (.of_forall₂ walked)))
    · exact fun step => List.mem_append_left _
    · exact fun step => List.mem_append_right _
  strange := strange
  apart node inside other outside same :=
    Nat.ne_of_lt (follow other outside node inside).1 same.symm

/-- Whether an error is about a node of a part. -/
def isAbout (body : List Stmt) (error : SemanticError) : Bool :=
  (Stmt.nodesOfAll body).any (·.mark.span = error.span)

theorem isAbout_iff {body : List Stmt} {error : SemanticError} :
    isAbout body error = true ↔ ∃ node ∈ Stmt.nodesOfAll body, node.mark.span = error.span := by
  simp [isAbout]

/-- An error about a later part is not about an earlier one. -/
theorem not_isAbout (follow : Stmt.Follow first second) {error : SemanticError} {node : Node}
    (inside : node ∈ Stmt.nodesOfAll second) (spans : node.mark.span = error.span) :
    isAbout first error = false := by
  rw [Bool.eq_false_iff, Ne, isAbout_iff]
  rintro ⟨other, outside, same⟩
  have less := (follow other outside node inside).2
  rw [same, spans] at less
  exact Nat.lt_irrefl _ less

/-- Errors that a part mirrors are the same, and about the part. -/
theorem errors_partMirror {whole : Program} {body : List Stmt} {goes : DeclId → DeclId → Prop}
    {error image : SemanticError} (goesWith : (partMirror whole body goes).Errors error image) :
    error = image ∧ ∃ node ∈ Stmt.nodesOfAll body, node.mark.span = image.span := by
  obtain ⟨cause, span⟩ := error
  obtain ⟨other, place⟩ := image
  obtain lenient | ⟨same, spans, inside⟩ := goesWith
  · exact lenient.elim
  · obtain rfl : other = cause := same
    obtain rfl : place = span := spans
    exact ⟨rfl, inside⟩

section Mirrors

variable {goes goesLater : DeclId → DeclId → Prop}

/-- Errors of the whole program are told apart by the part that they are about. -/
theorem shares_apart (mark : Mark) (follow : Stmt.Follow first second) :
    Findings.Shares (partMirror ⟨mark, first ++ second⟩ first goes)
      (partMirror ⟨mark, first ++ second⟩ second goesLater) (isAbout first) := by
  refine ⟨rfl, partMirror_same _ _ _, partMirror_same _ _ _, fun error image goesWith => ?_,
    fun error image goesWith => ?_⟩
  · exact isAbout_iff.mpr (errors_partMirror goesWith).2
  · obtain ⟨_, node, inside, spans⟩ := errors_partMirror goesWith
    exact not_isAbout follow inside spans

/-- What is known at once of the whole program is what is known of both parts. -/
theorem start_append (mark one two : Mark)
    (firstFacts : seeds ⟨one, first⟩ = (Walk.stmts 1 2 none first).flatMap Step.facts)
    (secondFacts : seeds ⟨two, second⟩ =
      (Walk.stmts 1 (moveAfter first 2) none second).flatMap Step.facts) :
    start ⟨mark, first ++ second⟩ =
      ⟨(FactStore.empty.setAll (seeds ⟨one, first⟩)).setAll (seeds ⟨two, second⟩), []⟩ := by
  rw [start, seeds, flatMap_steps (fun body => (Walk.silent_hoist 1 body).2) rfl]
  change Findings.mk (FactStore.setAll _ ((Walk.stmts 1 (id 2) none first).flatMap Step.facts ++
    (Walk.stmts 1 (moveAfter first 2) none second).flatMap Step.facts)) [] = _
  rw [firstFacts, secondFacts, FactStore.setAll, List.foldl_append]
  rfl

end Mirrors

variable (strange : Stmt.StrangeTo first second) (alien : Stmt.StrangeTo second first)
  (follow : Stmt.Follow first second)

include strange alien follow

/-- What the analysis of two parts finds is what the analyses of both find. -/
theorem found_apart (mark one two : Mark) : ∃ goes goesLater,
    Findings.Joined (partMirror ⟨mark, first ++ second⟩ first goes)
      (partMirror ⟨mark, first ++ second⟩ second goesLater) (isAbout first)
      (found ⟨one, first⟩) (found ⟨two, second⟩) (found ⟨mark, first ++ second⟩) := by
  have partFirst := part_first mark alien follow
  have partSecond := part_second mark strange follow
  obtain ⟨goes, firstRules, firstFacts, firstNames⟩ := partFirst.mirrored
  obtain ⟨goesLater, secondRules, secondFacts, secondNames⟩ := partSecond.mirrored
  have shares := @shares_apart first second goes goesLater mark follow
  have insideFirst : Walk.part 2 first ⊆ steps ⟨mark, first ++ second⟩ := by
    rw [steps_append]
    intro step member
    simp only [Walk.part, List.mem_append, List.mem_cons] at member ⊢
    tauto
  have insideSecond : Walk.part (2 + Step.opened (Walk.stmts 1 2 none first)) second ⊆
      steps ⟨mark, first ++ second⟩ := by
    rw [steps_append]
    intro step member
    simp only [Walk.part, List.mem_append, List.mem_cons] at member ⊢
    tauto
  have beside : Findings.Beside (partMirror ⟨mark, first ++ second⟩ first goes)
      (partMirror ⟨mark, first ++ second⟩ second goesLater) (rules ⟨one, first⟩)
      (rules ⟨two, second⟩) ((Walk.stmts 1 2 none first).flatMap Step.rules)
      ((Walk.stmts 1 (moveAfter first 2) none second).flatMap Step.rules) :=
    ⟨firstRules, secondRules, partSecond.leaves insideFirst, partFirst.leaves insideSecond⟩
  have started : Findings.Joined (partMirror ⟨mark, first ++ second⟩ first goes)
      (partMirror ⟨mark, first ++ second⟩ second goesLater) (isAbout first)
      (start ⟨one, first⟩) (start ⟨two, second⟩) (start ⟨mark, first ++ second⟩) := by
    rw [start_append mark one two firstFacts.symm secondFacts.symm]
    refine ⟨?_, ?_, .nil, .nil⟩
    · refine (Mirror.Stores.setAll shares.firstSame (Mirror.stores_empty _)
        (Step.answers_facts _ _)).setAll_right ?_
      rw [seeds, steps, ← secondFacts]
      exact partFirst.facts_apart
    · refine Mirror.Stores.setAll shares.secondSame ?_ (Step.answers_facts _ _)
      refine (Mirror.stores_empty _).setAll_right ?_
      rw [seeds, steps, ← firstFacts]
      exact partSecond.facts_apart
  have joined := Findings.solve_beside shares beside started
  have collected : rules ⟨mark, first ++ second⟩ =
      (Walk.stmts 1 2 none first).flatMap Step.rules ++
        (Walk.stmts 1 (moveAfter first 2) none second).flatMap Step.rules :=
    flatMap_steps (fun body => (Walk.silent_hoist 1 body).1) rfl
  rw [← collected] at joined
  refine ⟨goes, goesLater, joined.firstStores, joined.secondStores, ?_, ?_⟩
  · refine (List.filter_append _ _).symm ▸ List.rel_append
      (firstNames.forall₂_filter shares.firstOwn ?_) joined.firstErrors
    rintro error ⟨scope, name, kind, position, _, declared, rfl⟩
    obtain ⟨node, inside, spans⟩ := partSecond.span_of_declare declared
    exact not_isAbout follow inside spans
  · refine (List.filter_append _ _).symm ▸ List.rel_append
      (secondNames.forall₂_filter (fun error image goesWith => ?_) ?_) joined.secondErrors
    · rw [shares.secondOwn _ _ goesWith]
      rfl
    · rintro error ⟨scope, name, kind, position, _, declared, rfl⟩
      rw [isAbout_iff.mpr (partFirst.span_of_declare declared)]
      rfl

/-- The errors of two parts are those of the first one and then those of the second one. -/
theorem errors_append (mark one two : Mark) : errors ⟨mark, first ++ second⟩ =
    errors ⟨one, first⟩ ++ errors ⟨two, second⟩ := by
  obtain ⟨goes, goesLater, joined⟩ := found_apart strange alien follow mark one two
  have same : ∀ {body : List Stmt} {goes : DeclId → DeclId → Prop} {errors found},
      List.Forall₂ (partMirror ⟨mark, first ++ second⟩ body goes).Errors errors found →
      errors = found := by
    intro body goes errors found all
    exact List.forall₂_eq_eq_eq ▸ all.imp fun _ _ goesWith => (errors_partMirror goesWith).1
  rw [errors_eq, errors_eq, errors_eq, mergeSort_eq_append ?_ ?_ (isAbout first) _ ?_,
    same joined.firstErrors, same joined.secondErrors]
  · intro a b c
    simpa using Nat.le_trans
  · intro a b
    simpa using Nat.le_total a.span.start.offset b.span.start.offset
  · intro a memberA b memberB aboutFirst aboutSecond
    obtain ⟨node, inside, spans⟩ := isAbout_iff.mp aboutFirst
    have later : b ∈ (found ⟨mark, first ++ second⟩).errors.filter (!isAbout first ·) :=
      List.mem_filter.mpr ⟨memberB, by simp [aboutSecond]⟩
    obtain ⟨error, _, goesWith⟩ := exists_of_forall₂_right joined.secondErrors later
    obtain ⟨_, other, outside, place⟩ := errors_partMirror goesWith
    have less := (follow node inside other outside).2
    rw [spans, place] at less
    simpa using less

/-- Two lists of statements that have no names in common are analysed together as each on its own:
they are accepted if both are, the errors are those of the first and then those of the second, and
the types and the analysis of returns are the same at each node. -/
theorem analyzed_apart :
    ((analyze ⟨mark, first ++ second⟩).isOk = true ↔
        (analyze ⟨one, first⟩).isOk = true ∧ (analyze ⟨two, second⟩).isOk = true) ∧
      errors ⟨mark, first ++ second⟩ = errors ⟨one, first⟩ ++ errors ⟨two, second⟩ ∧
      ∀ notes, analyze ⟨mark, first ++ second⟩ = .ok notes → ∃ notesFirst notesSecond,
        analyze ⟨one, first⟩ = .ok notesFirst ∧ analyze ⟨two, second⟩ = .ok notesSecond ∧
          notesFirst.AgreeOn first notes ∧ notesSecond.AgreeOn second notes := by
  have appended := errors_append strange alien follow mark one two
  have accepted : (analyze ⟨mark, first ++ second⟩).isOk = true ↔
      (analyze ⟨one, first⟩).isOk = true ∧ (analyze ⟨two, second⟩).isOk = true := by
    rw [isOk_iff, isOk_iff, isOk_iff, appended, List.append_eq_nil_iff]
  refine ⟨accepted, appended, fun notes analyzed => ?_⟩
  obtain ⟨goes, goesLater, joined⟩ := found_apart strange alien follow mark one two
  have split : ∀ {program : Program}, (analyze program).isOk = true →
      ∃ notes, analyze program = .ok notes ∧ notes.facts = program.found.facts := by
    intro program isOk
    cases known : analyze program with
    | ok notes => exact ⟨notes, rfl, facts_of_analyze known⟩
    | error errors =>
      rw [known] at isOk
      cases isOk
  obtain ⟨isFirst, isSecond⟩ := accepted.mp (by rw [analyzed]; rfl)
  obtain ⟨notesFirst, knownFirst, factsFirst⟩ := split isFirst
  obtain ⟨notesSecond, knownSecond, factsSecond⟩ := split isSecond
  have storesFirst := joined.firstStores
  have storesSecond := joined.secondStores
  rw [← factsFirst, ← facts_of_analyze analyzed] at storesFirst
  rw [← factsSecond, ← facts_of_analyze analyzed] at storesSecond
  exact ⟨notesFirst, notesSecond, knownFirst, knownSecond,
    storesFirst.agreeOn fun node inside _ => ⟨rfl, node, inside, rfl⟩,
    storesSecond.agreeOn fun node inside _ => ⟨rfl, node, inside, rfl⟩⟩

end Parts

/-- The program that a source spells, parted after some statements, if the parts have no names in
common and are rejected with given numbers of errors. -/
def parted (file : String) (source : List Char) (count numberFirst numberSecond : Nat) : Bool :=
  match readProgram file source with
  | .error _ => false
  | .ok program =>
    let first := program.body.take count
    let second := program.body.drop count
    Stmt.StrangeTo first second && Stmt.StrangeTo second first && Stmt.Follow first second &&
      (found ⟨program.mark, first⟩).errors.length == numberFirst &&
      (found ⟨program.mark, second⟩).errors.length == numberSecond

theorem parted_of_parted {file : String} {source : List Char}
    {count numberFirst numberSecond : Nat}
    (known : parted file source count numberFirst numberSecond = true) :
    ∃ mark first second, readProgram file source = .ok ⟨mark, first ++ second⟩ ∧
      Stmt.StrangeTo first second ∧ Stmt.StrangeTo second first ∧ Stmt.Follow first second ∧
      (errors ⟨mark, first⟩).length = numberFirst ∧
      (errors ⟨mark, second⟩).length = numberSecond := by
  unfold parted at known
  split at known
  · cases known
  · rename_i program read
    obtain ⟨mark, body⟩ := program
    simp only [Bool.and_eq_true, decide_eq_true_eq, beq_iff_eq] at known
    obtain ⟨⟨⟨⟨strange, alien⟩, follow⟩, countFirst⟩, countSecond⟩ := known
    refine ⟨mark, body.take count, body.drop count, ?_, strange, alien, follow, ?_, ?_⟩
    · rw [List.take_append_drop]
      exact read
    · rw [errors_eq, List.length_mergeSort, countFirst]
    · rw [errors_eq, List.length_mergeSort, countSecond]

/-- A function that misses its result and a bad argument, before a variable that asks for itself and
one that is declared twice. -/
theorem analyzed_apart_with_errors_in_both : ∃ mark first second,
    readProgram "main.sigh" ("fun f(n: Int): Int { }\nvar a = f(true)\n" ++
        "var b = b\nvar c = 1\nvar c = \"x\" * c").toList = .ok ⟨mark, first ++ second⟩ ∧
      (errors ⟨mark, first⟩).length = 2 ∧ (errors ⟨mark, second⟩).length = 3 ∧
      errors ⟨mark, first ++ second⟩ = errors ⟨mark, first⟩ ++ errors ⟨mark, second⟩ := by
  have known : parted "main.sigh" ("fun f(n: Int): Int { }\nvar a = f(true)\n" ++
      "var b = b\nvar c = 1\nvar c = \"x\" * c").toList 2 2 3 = true := by
    decide +kernel
  obtain ⟨mark, first, second, read, strange, alien, follow, countFirst, countSecond⟩ :=
    parted_of_parted known
  exact ⟨mark, first, second, read, countFirst, countSecond,
    (analyzed_apart strange alien follow).2.1⟩

end Program

end BoxScript
