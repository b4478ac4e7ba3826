import BoxScript.Proofs.Rules.Lockstep

/-!
# Solving side by side

The rules of two analyses can be solved as one list of rules. If each rule of the list mirrors one
of its own analysis, and leaves alone what the other analysis asks about, then the passes through
the list are the passes of the two analyses at once: the slots are those of both, and the errors are
those of both, each in its order (`Findings.solve_beside`).
-/

set_option autoImplicit false

namespace BoxScript

/-! ## Rules that leave questions alone -/

/-- A rule that settles none of the questions of which a mirror speaks. -/
structure Rule.Leaves (mirror : Mirror) (rule : Rule) : Prop where
  produces : ∀ key ∈ rule.produces, ∀ asked, ¬ mirror.reads asked key
  writes : ∀ facts writes errors, rule.attempt mirror.right facts = .completed writes errors →
    ∀ write ∈ writes, write.1 ∈ rule.produces

namespace Mirror

variable {mirror : Mirror} {facts found : FactStore}

/-- Writes to other questions do not matter to a mirror. -/
theorem Stores.setAll_right (stores : mirror.Stores facts found)
    {writes : List (FactKey × FactValue)}
    (apart : ∀ write ∈ writes, ∀ asked, ¬ mirror.reads asked write.1) :
    mirror.Stores facts (found.setAll writes) := by
  induction writes generalizing found with
  | nil => exact stores
  | cons write rest ih =>
    obtain ⟨other, value⟩ := write
    refine ih ?_ fun write member => apart write (List.mem_cons_of_mem _ member)
    intro key image reads
    have different : other ≠ image := by
      rintro rfl
      exact apart _ List.mem_cons_self key reads
    rw [FactStore.get?_set, if_neg different]
    exact stores key image reads

/-- Poisoning other questions does not matter to a mirror. -/
theorem Stores.poisonAll_right (stores : mirror.Stores facts found) {keys : List FactKey}
    (apart : ∀ key ∈ keys, ∀ asked, ¬ mirror.reads asked key) :
    mirror.Stores facts (found.poisonAll keys) := by
  intro key image reads
  have other : image ∉ keys := fun member => apart image member key reads
  rw [FactStore.get?_poisonAll, if_neg other]
  exact stores key image reads

end Mirror

namespace Findings

variable {mirror : Mirror} {symbols : SymbolTable} {rule : Rule} {rules more : List Rule}
  {found : Findings} {facts : FactStore}

theorem attempt_leaves (leaves : rule.Leaves mirror) (stores : mirror.Stores facts found.facts) :
    mirror.Stores facts (found.attempt mirror.right rule).2.facts := by
  have poisoned := stores.poisonAll_right leaves.produces
  unfold attempt
  cases attempted : rule.attempt mirror.right found.facts with
  | completed writes errors =>
    cases errors with
    | nil =>
      exact stores.setAll_right fun write member =>
        leaves.produces _ (leaves.writes _ _ _ attempted write member)
    | cons error rest => exact poisoned
  | missing key => exact stores
  | poisoned => exact poisoned

theorem pass_leaves (leaves : ∀ rule ∈ rules, rule.Leaves mirror)
    (stores : mirror.Stores facts found.facts) :
    mirror.Stores facts (pass mirror.right rules found).2.facts := by
  induction rules generalizing found with
  | nil => exact stores
  | cons rule rules ih =>
    obtain ⟨here, later⟩ := List.forall_mem_cons.mp leaves
    exact ih later (attempt_leaves here stores)

theorem giveUp_leaves (leaves : ∀ rule ∈ rules, rule.Leaves mirror)
    (stores : mirror.Stores facts found.facts) :
    mirror.Stores facts (found.giveUp rules).facts := by
  refine stores.poisonAll_right fun key member => ?_
  obtain ⟨rule, inside, produced⟩ := List.mem_flatMap.mp member
  exact (leaves rule inside).produces key produced

/-! ## Passes through two lists -/

theorem pass_append : pass symbols (rules ++ more) found =
    ((pass symbols rules found).1 ++ (pass symbols more (pass symbols rules found).2).1,
      (pass symbols more (pass symbols rules found).2).2) := by
  induction rules generalizing found with
  | nil => rfl
  | cons rule rules ih =>
    simp only [List.cons_append, pass, ih]
    split <;> rfl

/-- The rules that wait after a pass were there before it. -/
theorem sublist_pass : (pass symbols rules found).1.Sublist rules := by
  induction rules generalizing found with
  | nil => exact .refl []
  | cons rule rules ih =>
    simp only [pass]
    split
    · exact ih.cons rule
    · exact ih.cons_cons rule

/-- Findings after errors that were found before. -/
def after (errors : List SemanticError) (found : Findings) : Findings :=
  ⟨found.facts, errors ++ found.errors⟩

/-- An attempt does not look at the errors that it adds to. -/
theorem attempt_after (errors : List SemanticError) :
    (found.after errors).attempt symbols rule =
      ((found.attempt symbols rule).1, (found.attempt symbols rule).2.after errors) := by
  unfold attempt after
  cases rule.attempt symbols found.facts with
  | completed writes reported => cases reported <;> simp
  | missing key => rfl
  | poisoned => rfl

theorem pass_after (errors : List SemanticError) :
    pass symbols rules (found.after errors) =
      ((pass symbols rules found).1, (pass symbols rules found).2.after errors) := by
  induction rules generalizing found with
  | nil => rfl
  | cons rule rules ih => simp only [pass, attempt_after, ih]

/-- What a pass comes to, apart from the errors that were found before it. -/
theorem pass_eq (symbols : SymbolTable) (rules : List Rule) (found : Findings) :
    pass symbols rules found =
    ((pass symbols rules ⟨found.facts, []⟩).1,
      (pass symbols rules ⟨found.facts, []⟩).2.after found.errors) := by
  rw [← pass_after, after, List.append_nil]

/-! ## Two analyses at once -/

/-- Findings of two analyses, and findings that are those of both: the slots mirror those of each,
and of the errors some mirror those of the one, in their order, and the others those of the other
one. -/
structure Joined (first second : Mirror) (own : SemanticError → Bool) (one two both : Findings) :
    Prop where
  firstStores : first.Stores one.facts both.facts
  secondStores : second.Stores two.facts both.facts
  firstErrors : List.Forall₂ first.Errors one.errors (both.errors.filter own)
  secondErrors : List.Forall₂ second.Errors two.errors (both.errors.filter (!own ·))

section Joined

variable {first second : Mirror} {own : SemanticError → Bool} {one two both : Findings}
  {as bs images others : List Rule}

theorem filter_of_forall₂ {R : SemanticError → SemanticError → Prop} {value : Bool}
    {errors found : List SemanticError} (all : List.Forall₂ R errors found)
    (told : ∀ error image, R error image → own image = value) :
    found.filter own = (if value then found else []) ∧
      found.filter (!own ·) = (if value then [] else found) := by
  induction all with
  | nil => simp
  | cons here _ ih =>
    have is := told _ _ here
    cases value <;> simp_all

/-- The rules of two analyses, one list after the other, for a pass through both. -/
structure Beside (first second : Mirror) (as bs images others : List Rule) : Prop where
  firstRules : List.Forall₂ (Rule.Mirrors first) as images
  secondRules : List.Forall₂ (Rule.Mirrors second) bs others
  firstLeaves : ∀ rule ∈ images, rule.Leaves second
  secondLeaves : ∀ rule ∈ others, rule.Leaves first

/-- Two analyses that are part of one, where questions are mirrored by themselves and it is known
whose an error is. -/
structure Shares (first second : Mirror) (own : SemanticError → Bool) : Prop where
  table : second.right = first.right
  firstSame : first.Same
  secondSame : second.Same
  firstOwn : ∀ error image, first.Errors error image → own image = true
  secondOwn : ∀ error image, second.Errors error image → own image = false

/-- Errors of both analyses after errors of both. -/
theorem joined_errors (shares : Shares first second own)
    {errors reported further added before : List SemanticError}
    (firstErrors : List.Forall₂ first.Errors errors (before.filter own))
    (secondErrors : List.Forall₂ second.Errors reported (before.filter (!own ·)))
    {found found' : List SemanticError} (firstMore : List.Forall₂ first.Errors further found)
    (secondMore : List.Forall₂ second.Errors added found') :
    List.Forall₂ first.Errors (errors ++ further) ((before ++ (found ++ found')).filter own) ∧
      List.Forall₂ second.Errors (reported ++ added)
        ((before ++ (found ++ found')).filter (!own ·)) := by
  obtain ⟨kept, dropped⟩ := filter_of_forall₂ firstMore shares.firstOwn
  obtain ⟨droppedToo, keptToo⟩ := filter_of_forall₂ secondMore shares.secondOwn
  simp only [List.filter_append, kept, dropped, droppedToo, keptToo, if_true, if_false,
    Bool.false_eq_true, List.append_nil, List.nil_append]
  exact ⟨List.rel_append firstErrors firstMore, List.rel_append secondErrors secondMore⟩

/-- A pass through the rules of two analyses is a pass of each. -/
theorem pass_beside (shares : Shares first second own)
    (beside : Beside first second as bs images others)
    (joined : Joined first second own one two both) :
    ∃ waiting left, (pass first.right (images ++ others) both).1 = waiting ++ left ∧
      Beside first second (pass first.left as one).1 (pass second.left bs two).1 waiting left ∧
      Joined first second own (pass first.left as one).2 (pass second.left bs two).2
        (pass first.right (images ++ others) both).2 := by
  have starts : Findings.Mirrors first ⟨one.facts, []⟩ ⟨both.facts, []⟩ :=
    ⟨joined.firstStores, .nil⟩
  obtain ⟨firstWaits, firstFound⟩ := pass_mirrors shares.firstSame beside.firstRules starts
  have secondStores : second.Stores two.facts (pass second.right images ⟨both.facts, []⟩).2.facts :=
    pass_leaves beside.firstLeaves joined.secondStores
  rw [shares.table] at secondStores
  have goesOn : Findings.Mirrors second ⟨two.facts, []⟩
      ⟨(pass first.right images ⟨both.facts, []⟩).2.facts, []⟩ :=
    ⟨secondStores, .nil⟩
  obtain ⟨secondWaits, secondFound⟩ := pass_mirrors shares.secondSame beside.secondRules goesOn
  have firstStores : first.Stores (pass first.left as ⟨one.facts, []⟩).2.facts
      (pass first.right others
        ⟨(pass first.right images ⟨both.facts, []⟩).2.facts, []⟩).2.facts :=
    pass_leaves beside.secondLeaves firstFound.stores
  rw [shares.table] at secondWaits secondFound
  obtain ⟨firstErrors, secondErrors⟩ := joined_errors shares joined.firstErrors
    joined.secondErrors firstFound.errors secondFound.errors
  rw [pass_append, pass_eq first.right images both, pass_eq first.right others,
    pass_eq first.left as, pass_eq second.left bs]
  refine ⟨_, _, rfl, ⟨firstWaits, secondWaits, ?_, ?_⟩, ⟨firstStores, secondFound.stores, ?_, ?_⟩⟩
  · exact fun rule member => beside.firstLeaves rule (sublist_pass.subset member)
  · exact fun rule member => beside.secondLeaves rule (sublist_pass.subset member)
  · simp only [after, List.append_assoc]
    exact firstErrors
  · simp only [after, List.append_assoc]
    exact secondErrors

theorem passes_beside (shares : Shares first second own) (number : Nat)
    (beside : Beside first second as bs images others)
    (joined : Joined first second own one two both) :
    ∃ waiting left, (passes first.right number (images ++ others) both).1 = waiting ++ left ∧
      Beside first second (passes first.left number as one).1 (passes second.left number bs two).1
        waiting left ∧
      Joined first second own (passes first.left number as one).2
        (passes second.left number bs two).2
        (passes first.right number (images ++ others) both).2 := by
  induction number generalizing as bs images others one two both with
  | zero => exact ⟨images, others, rfl, beside, joined⟩
  | succ number ih =>
    obtain ⟨waiting, left, is, besideNext, joinedNext⟩ := pass_beside shares beside joined
    simp only [passes]
    rw [is]
    exact ih besideNext joinedNext

theorem giveUp_beside (shares : Shares first second own)
    (beside : Beside first second as bs images others)
    (joined : Joined first second own one two both) :
    Joined first second own (one.giveUp as) (two.giveUp bs) (both.giveUp (images ++ others)) := by
  let between : Findings := ⟨((⟨both.facts, []⟩ : Findings).giveUp images).facts, []⟩
  have starts : Findings.Mirrors first ⟨one.facts, []⟩ ⟨both.facts, []⟩ :=
    ⟨joined.firstStores, .nil⟩
  have firstFound := giveUp_mirrors shares.firstSame beside.firstRules starts
  have goesOn : Findings.Mirrors second ⟨two.facts, []⟩ between :=
    ⟨giveUp_leaves beside.firstLeaves joined.secondStores, .nil⟩
  have secondFound := giveUp_mirrors shares.secondSame beside.secondRules goesOn
  have firstStores : first.Stores ((⟨one.facts, []⟩ : Findings).giveUp as).facts
      (between.giveUp others).facts :=
    giveUp_leaves beside.secondLeaves firstFound.stores
  obtain ⟨firstErrors, secondErrors⟩ := joined_errors shares joined.firstErrors
    joined.secondErrors firstFound.errors secondFound.errors
  have facts : (between.giveUp others).facts = (both.giveUp (images ++ others)).facts := by
    simp only [between, giveUp, FactStore.poisonAll, List.flatMap_append, List.foldl_append]
  rw [facts] at firstStores
  have secondStores := secondFound.stores
  rw [facts] at secondStores
  refine ⟨firstStores, secondStores, ?_, ?_⟩
  · simpa only [between, giveUp, List.map_append, List.nil_append] using firstErrors
  · simpa only [between, giveUp, List.map_append, List.nil_append] using secondErrors

/-- Solving the rules of two analyses as one list comes to what each analysis comes to. -/
theorem solve_beside (shares : Shares first second own)
    (beside : Beside first second as bs images others)
    (joined : Joined first second own one two both) :
    Joined first second own (solve first.left as one) (solve second.left bs two)
      (solve first.right (images ++ others) both) := by
  have lengths : (images ++ others).length = as.length + bs.length := by
    rw [List.length_append, beside.firstRules.length_eq, beside.secondRules.length_eq]
  rw [solve_eq_passes (Nat.le_add_right as.length bs.length),
    solve_eq_passes (Nat.le_add_left bs.length as.length),
    solve_eq_passes (Nat.le_of_eq lengths)]
  obtain ⟨waiting, left, is, besideLast, joinedLast⟩ :=
    passes_beside shares (as.length + bs.length) beside joined
  rw [is]
  exact giveUp_beside shares besideLast joinedLast

end Joined

end Findings

end BoxScript
