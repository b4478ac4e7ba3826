import BoxScript.Proofs.Recasting.Analysis
import BoxScript.Proofs.Recasting.Copying
import BoxScript.Proofs.Recasting.Running
import BoxScript.Proofs.Typing.Completeness

/-!
# Parentheses and braces

Parentheses can be put around any expressions of a program, and braces around any bodies of branches
and loops. The program that results is accepted if and only if the program is, and it runs alike
(`Program.bracketed_alike`).

The analysis of the program with brackets has further rules, which copy the types of what is in
parentheses, and whether the statements in braces return. So the two analyses do not go in lockstep,
but what they settle on goes with each other (`Program.stores_settled`).

The run of the program with brackets nests deeper, up to twice as deep. A run of the program that
ends within some depth is compared with one within twice that depth, and a run of the program with
brackets that ends within some depth with one within the same depth.
-/

set_option autoImplicit false
set_option maxRecDepth 100000

namespace BoxScript

/-- Whether a run came to an end within its fuel. -/
def Outcome.hasEnd : Outcome → Bool
  | .outOfFuel => false
  | _ => true

/-- A rule that has come to its end under a store, and has nothing to report. -/
def Rule.Succeeds (symbols : SymbolTable) (facts : FactStore) (rule : Rule) : Prop :=
  ¬ rule.Waits symbols facts ∧ (rule.attempt symbols facts).errors = []

namespace Program

/-- What is required of the brackets that are put into a program: they stay out of the way of its
nodes and of each other, they lie where the bracketed node lies, and all names are kept. -/
structure Brackets (program : Program) (r : Recast) : Prop where
  span : ∀ span, r.span span = span
  name : ∀ id name, r.name id name = name
  fresh : ∀ node id, r.Puts node id → id ∉ Stmt.idsOfAll program.body
  nodup : (Stmt.idsOfAll (program.recast r).body).Nodup

/-- A program is accepted if its names are distinct and its rules succeed. -/
theorem isOk_iff_succeeds {program : Program} (nodup : (Stmt.idsOfAll program.body).Nodup) :
    (analyze program).isOk = true ↔ (survey program.steps).errors = #[] ∧
      ∀ rule ∈ program.rules, rule.Succeeds program.symbols program.settled.2.facts := by
  have settled := settled_settled nodup
  have left : program.settled.1 = [] ↔
      ∀ rule ∈ program.rules, ¬ rule.Waits program.symbols program.settled.2.facts := by
    rw [← List.length_eq_zero_iff, settled.left.length_eq, List.length_eq_zero_iff,
      List.filter_eq_nil_iff]
    rfl
  have errors : program.settled.2.errors = [] ↔ ∀ rule ∈ program.rules,
      (rule.attempt program.symbols program.settled.2.facts).errors = [] := by
    rw [← List.length_eq_zero_iff, settled.errors.length_eq, List.length_eq_zero_iff,
      List.append_eq_nil_iff, List.flatMap_eq_nil_iff]
    exact and_iff_right rfl
  constructor
  · intro accepts
    cases analyzed : analyze program with
    | error _ => simp [analyzed, Except.isOk, Except.toBool] at accepts
    | ok notes =>
      obtain ⟨distinct, none, quiet, _⟩ := analyze_eq_ok_iff.mp analyzed
      exact ⟨distinct, fun rule member => ⟨left.mp none rule member, errors.mp quiet rule member⟩⟩
  · rintro ⟨distinct, succeeds⟩
    have accepted := analyze_eq_ok_iff.mpr ⟨distinct,
      left.mpr fun rule member => (succeeds rule member).1,
      errors.mpr fun rule member => (succeeds rule member).2, rfl⟩
    rw [accepted]
    rfl

section Brackets

variable {program : Program} {r : Recast} {goes : DeclId → DeclId → Prop}
  (nodup : (Stmt.idsOfAll program.body).Nodup) (brackets : program.Brackets r)

include brackets

theorem not_hasNode {node id : NodeId} (put : r.Puts node id) : ¬ program.HasNode id := by
  rintro ⟨own, inside, rfl⟩
  apply brackets.fresh node own.id put
  rw [← Stmt.map_id_nodesOfAll]
  exact List.mem_map.mpr ⟨own, inside, rfl⟩

/-- What is copied is copied from the program to something new. -/
theorem Copied.apart {key image : FactKey} (copied : program.Copied r key image) :
    program.HasNode key.node ∧ ¬ program.HasNode image.node := by
  obtain ⟨⟨own, put⟩ | ⟨own, put⟩, _⟩ := copied
  · exact ⟨⟨_, own, rfl⟩, not_hasNode brackets (.inl put)⟩
  · exact ⟨⟨_, own, rfl⟩, not_hasNode brackets (.inr put)⟩

/-- There is one answer that is copied. -/
theorem Copied.eq {key other image : FactKey} (copied : program.Copied r key image)
    (again : program.Copied r other image) : other = key := by
  obtain ⟨_, step, walked, copies⟩ := copied
  obtain ⟨_, second, walkedToo, copiesToo⟩ := again
  have distinct := Walk.distinct_program brackets.nodup
  have same := distinct.eq_of_use walked walkedToo
    (Step.mem_uses_of_answers copies.answers) (Step.mem_uses_of_answers copiesToo.answers)
  subst same
  exact copies.eq copiesToo

/-- The questions that the program with brackets has about brackets are answered by copying. -/
theorem copying_recastMirror
    (recasts : program.symbols.Recasts r id (program.Added r) program.steps goes
      (program.recast r).symbols) :
    (program.recastMirror r False goes).Copying (program.recast r).rules where
  decls := eq_of_recasts recasts
  functional := by
    rintro key other image (⟨rfl, own⟩ | copied) (⟨rfl, ownToo⟩ | copiedToo)
    · rfl
    · exact absurd own (copiedToo.apart brackets).2
    · exact absurd ownToo (copied.apart brackets).2
    · exact copied.eq brackets copiedToo
  own := by
    rintro key image (⟨_, own⟩ | copied)
    · exact .inl ⟨rfl, own⟩
    · exact .inl ⟨rfl, (copied.apart brackets).1⟩
  copied := by
    rintro key image (⟨same, _⟩ | ⟨_, step, walked, copies⟩)
    · exact .inl same
    · obtain ⟨rule, collected, copiesRule⟩ := copies.rule (program.recast r).symbols
      refine .inr ⟨rule, List.mem_flatMap.mpr ⟨step, walked, ?_⟩, copiesRule⟩
      rw [collected]
      exact List.mem_cons_self

/-- The rules of the program with brackets are those of the program, and rules that copy. -/
theorem matched_rules
    (recasts : program.symbols.Recasts r id (program.Added r) program.steps goes
      (program.recast r).symbols) (faithful : (program.recastMirror r False goes).Faithful) :
    Matched (Rule.Mirrors (program.recastMirror r False goes))
        (program.recastMirror r False goes).Copies program.rules (program.recast r).rules ∧
      (program.recast r).seeds = program.seeds := by
  have looks : program.LooksAlike r False := by
    refine looksAlike_of_names brackets.name fun home decl _ _ step _ asked _ => ?_
    rw [brackets.span, brackets.span]
  obtain ⟨rules, facts⟩ := (alike_recastMirror program goes (.inr brackets.name)).rules faithful
    (.inr brackets.name) (List.Subset.refl _) fun step walked image _ =>
      looks goes recasts step walked image
  refine ⟨rules.imp_extra ?_, facts⟩
  rintro rule _ ⟨step, walked, ⟨key, image, copies, wraps⟩, own⟩
  have copied : program.Copied r key image := ⟨wraps, step, walked, copies⟩
  obtain ⟨_, collected, copiesRule⟩ := copies.rule (program.recast r).symbols
  obtain ⟨here, there⟩ := copied.apart brackets
  rw [own] at collected
  cases collected
  exact ⟨key, image, .inr copied, fun same => there (same ▸ here), copiesRule⟩

/-! ## Acceptance -/

/-- Whether a slot that is copied holds an answer of the right sort, as far as the stores agree. -/
def CopiesSorted (program : Program) (r : Recast) : Prop :=
  ∀ {key image : FactKey}, program.Copied r key image → ∀ slot,
    program.settled.2.facts.get? key = some slot →
    (program.recast r).settled.2.facts.get? key = some slot → slot.IsFor key.kind

include nodup

/-- What both analyses settle on goes with each other. -/
theorem stores_settled
    (recasts : program.symbols.Recasts r id (program.Added r) program.steps goes
      (program.recast r).symbols) (faithful : (program.recastMirror r False goes).Faithful)
    (sorted : program.CopiesSorted r) :
    (program.recastMirror r False goes).Stores program.settled.2.facts
      (program.recast r).settled.2.facts := by
  obtain ⟨matched, facts⟩ := matched_rules brackets recasts faithful
  have copying := copying_recastMirror brackets recasts
  have answered : ∀ {step : Step}, step ∈ program.steps → ∀ {key : FactKey}, key ∈ step.answers →
      (program.recastMirror r False goes).reads key key := fun walked _ answers =>
    .inl ⟨rfl, Walk.node_of_program walked (Step.mem_uses_of_answers answers)⟩
  refine Mirror.Copying.stores copying matched
    (program.independent nodup _).toSeparate
    ((program.recast r).independent brackets.nodup _).toSeparate
    (settled_settled nodup) (settled_settled brackets.nodup) ?_ ?_ ?_ ?_
  · rintro key image (⟨same, _⟩ | copied) apart
    · exact absurd same apart
    · exact sorted copied
  · change FactStore.empty.setAll (program.recast r).seeds = FactStore.empty.setAll program.seeds
    rw [facts]
  · intro key slot found
    change (FactStore.empty.setAll program.seeds).get? key = some slot at found
    rw [FactStore.get?_setAll] at found
    split at found
    · rename_i value written
      cases found
      have member := FactStore.mem_of_lastWrite? written
      obtain ⟨step, walked, known⟩ := List.mem_flatMap.mp member
      refine ⟨answered walked (List.mem_append_left _ (List.mem_map.mpr ⟨_, known, rfl⟩)), ?_⟩
      rintro _ ⟨⟩
      exact ((Step.answers_facts _ program.steps).eq copying.decls).2 _ member
    · rw [FactStore.get?_empty] at found
      cases found
  · intro rule key member produced
    obtain ⟨step, walked, collected⟩ := List.mem_flatMap.mp member
    exact answered walked
      (List.mem_append_right _ (List.mem_flatMap.mpr ⟨rule, collected, produced⟩))

omit brackets in
/-- What is copied has an answer of its sort, if the program is accepted. -/
theorem sorted_of_analyze {notes : Annotations} (analyzed : analyze program = .ok notes)
    {key image : FactKey} (copied : program.Copied r key image) :
    ∃ slot, program.settled.2.facts.get? key = some slot ∧ slot.IsFor key.kind := by
  have accepted := accepted_of_analyze nodup analyzed
  obtain ⟨_, _, _, rfl⟩ := analyze_eq_ok_iff.mp analyzed
  have annotated := fun node inside =>
    accepted.annotated_of_walked (Walk.covers_program program.body node inside)
  obtain ⟨⟨own, _⟩ | ⟨own, _⟩, _⟩ := copied
  · obtain ⟨ty, typed⟩ := Option.isSome_iff_exists.mp (annotated _ own).1
    exact ⟨_, Annotations.typeOf?_eq_some.mp typed, trivial⟩
  · obtain ⟨value, returns⟩ := Option.isSome_iff_exists.mp (annotated _ own).1
    exact ⟨_, Annotations.returns?_eq_some.mp returns, trivial⟩

omit nodup in
/-- What is copied has an answer of its sort, if the program with brackets is accepted. -/
theorem sorted_of_analyze_recast {image : Annotations}
    (analyzed : analyze (program.recast r) = .ok image) {key copy : FactKey}
    (copied : program.Copied r key copy) :
    ∃ slot, (program.recast r).settled.2.facts.get? key = some slot ∧ slot.IsFor key.kind := by
  have accepted := accepted_of_analyze brackets.nodup analyzed
  obtain ⟨_, _, _, rfl⟩ := analyze_eq_ok_iff.mp analyzed
  obtain ⟨_, step, walked, copies⟩ := copied
  cases copies with
  | paren =>
    obtain ⟨ty, typed, _⟩ :=
      Rule.paren_holds_iff.mp (accepted.holds _ walked _ List.mem_cons_self)
    exact ⟨_, Annotations.typeOf?_eq_some.mp typed, trivial⟩
  | block =>
    obtain ⟨value, returns, _⟩ :=
      Rule.blockReturns_holds_iff.mp (accepted.holds _ walked _ List.mem_cons_self)
    exact ⟨_, Annotations.returns?_eq_some.mp returns, trivial⟩

section Faithful

variable (recasts : program.symbols.Recasts r id (program.Added r) program.steps goes
    (program.recast r).symbols) (faithful : (program.recastMirror r False goes).Faithful)

include recasts faithful

/-- Rules that mirror one another succeed together. -/
theorem succeeds_iff (sorted : program.CopiesSorted r) {rule image : Rule}
    (mirrors : rule.Mirrors (program.recastMirror r False goes) image) :
    rule.Succeeds program.symbols program.settled.2.facts ↔
      image.Succeeds (program.recast r).symbols (program.recast r).settled.2.facts := by
  have attempts := mirrors.attempt _ _ (stores_settled nodup brackets recasts faithful sorted)
  refine and_congr (not_congr (Eq.congr_left attempts.isWaiting.symm)) ?_
  rw [← List.length_eq_zero_iff, ← List.length_eq_zero_iff]
  exact Eq.congr_left attempts.length_errors.symm

omit brackets recasts faithful in
theorem copiesSorted_of_analyze {notes : Annotations} (analyzed : analyze program = .ok notes) :
    program.CopiesSorted r := by
  intro key image copied slot here _
  obtain ⟨_, held, sound⟩ := sorted_of_analyze nodup analyzed copied
  rw [here] at held
  cases held
  exact sound

omit nodup recasts faithful in
theorem copiesSorted_of_analyze_recast {image : Annotations}
    (analyzed : analyze (program.recast r) = .ok image) : program.CopiesSorted r := by
  intro key copy copied slot _ there
  obtain ⟨_, held, sound⟩ := sorted_of_analyze_recast brackets analyzed copied
  rw [there] at held
  cases held
  exact sound

/-- The rules of the program with brackets succeed, if the program is accepted. -/
theorem succeeds_recast {notes : Annotations} (analyzed : analyze program = .ok notes) :
    ∀ rule ∈ (program.recast r).rules,
      rule.Succeeds (program.recast r).symbols (program.recast r).settled.2.facts := by
  have sorted : program.CopiesSorted r := copiesSorted_of_analyze nodup analyzed
  obtain ⟨_, own⟩ := (isOk_iff_succeeds nodup).mp (by rw [analyzed]; rfl)
  intro rule member
  rcases (matched_rules brackets recasts faithful).1.mem_right member with
    ⟨source, here, mirrors⟩ | ⟨key, image, ⟨same, _⟩ | copied, apart, copies⟩
  · exact (succeeds_iff nodup brackets recasts faithful sorted mirrors).mp (own source here)
  · exact absurd same apart
  · obtain ⟨slot, held, sound⟩ := sorted_of_analyze nodup analyzed copied
    have slots := stores_settled nodup brackets recasts faithful sorted key key
      (.inl ⟨rfl, (copied.apart brackets).1⟩)
    exact copies.ends ((slots.eq (eq_of_recasts recasts)).trans held) sound

/-- The rules of the program succeed, if the program with brackets is accepted. -/
theorem succeeds_of_recast {image : Annotations}
    (analyzed : analyze (program.recast r) = .ok image) :
    ∀ rule ∈ program.rules, rule.Succeeds program.symbols program.settled.2.facts := by
  have sorted : program.CopiesSorted r := copiesSorted_of_analyze_recast brackets analyzed
  obtain ⟨_, all⟩ := (isOk_iff_succeeds brackets.nodup).mp (by rw [analyzed]; rfl)
  intro rule member
  obtain ⟨copy, there, mirrors⟩ :=
    (matched_rules brackets recasts faithful).1.mem_left member
  exact (succeeds_iff nodup brackets recasts faithful sorted mirrors).mpr (all copy there)

end Faithful

omit nodup in
/-- The tables of the program and of the program with brackets, and the duplicate names in both. -/
theorem recasts_brackets : ∃ goes,
    program.symbols.Recasts r id (program.Added r) program.steps goes (program.recast r).symbols ∧
      List.Forall₂ (program.recastMirror r False goes).Errors
        (survey program.steps).errors.toList (survey (program.recast r).steps).errors.toList ∧
      (program.recastMirror r False goes).Faithful :=
  recasts_recastMirror program (.inr brackets.name)
    (Recast.respects_of_names brackets.name program.steps)

/-- Whether brackets are put in or not, the program is accepted. -/
theorem isOk_recast : (analyze (program.recast r)).isOk = (analyze program).isOk := by
  obtain ⟨goes, recasts, duplicates, faithful⟩ := recasts_brackets brackets
  have distinct : (survey (program.recast r).steps).errors = #[] ↔
      (survey program.steps).errors = #[] := by
    rw [← Array.toList_eq_nil_iff, ← Array.toList_eq_nil_iff, ← List.length_eq_zero_iff,
      ← List.length_eq_zero_iff, duplicates.length_eq]
  have given : ∀ {other : Program}, (analyze other).isOk = true →
      ∃ notes, analyze other = .ok notes := by
    intro other accepts
    cases analyzed : analyze other with
    | ok notes => exact ⟨notes, rfl⟩
    | error _ => simp [analyzed, Except.isOk, Except.toBool] at accepts
  rw [Bool.eq_iff_iff]
  constructor
  · intro accepts
    obtain ⟨image, analyzed⟩ := given accepts
    exact (isOk_iff_succeeds nodup).mpr
      ⟨distinct.mp ((isOk_iff_succeeds brackets.nodup).mp accepts).1,
        succeeds_of_recast nodup brackets recasts faithful analyzed⟩
  · intro accepts
    obtain ⟨notes, analyzed⟩ := given accepts
    exact (isOk_iff_succeeds brackets.nodup).mpr
      ⟨distinct.mpr ((isOk_iff_succeeds nodup).mp accepts).1,
        succeeds_recast nodup brackets recasts faithful analyzed⟩

/-! ## Runs -/

theorem faithful_brackets {notes image : Annotations} (analyzed : analyze program = .ok notes)
    (analyzedToo : analyze (program.recast r) = .ok image) {pace : Pace} (uneven : pace ≠ .even) :
    (program.rerun r notes image False pace).Faithful := by
  obtain ⟨goes, recasts, _, faithful⟩ := recasts_brackets brackets
  have facts := (analyze_eq_ok_iff.mp analyzed).2.2.2
  have factsToo := (analyze_eq_ok_iff.mp analyzedToo).2.2.2
  have stores : (program.recastMirror r False goes).Stores notes.facts image.facts := by
    rw [facts, factsToo]
    exact stores_settled nodup brackets recasts faithful (copiesSorted_of_analyze nodup analyzed)
  refine faithful_rerun nodup analyzed analyzedToo recasts stores (.inr brackets.name) ?_
    (fun even => absurd even uneven) (Recast.respects_of_names brackets.name program.steps) ?_ ?_
  · intro id name other same
    rw [brackets.name, brackets.name] at same
    exact same
  · intro scope name kind mark position _
    cases kind <;> simp only [Recast.called, brackets.name]
  · intro scope expectation mark name decl _ _
    cases decl.node <;> simp only [Recast.bound, brackets.name]

/-- Parentheses around any expressions and braces around any bodies do not matter. The program with
them is accepted if and only if the program is. It then runs alike, to the same value text or the
same error, and with the same output: a run of either program that ends within some depth has its
counterpart, which is at most twice as deep with brackets, and no deeper without. Whether a run ends
or not, its counterpart prints all that it has printed. -/
theorem bracketed_alike :
    (analyze (program.recast r)).isOk = (analyze program).isOk ∧
      ∀ notes image, analyze program = .ok notes → analyze (program.recast r) = .ok image →
        ∀ fuel output,
          (∀ more, 2 * fuel ≤ more →
            ((runProgram fuel notes program (.fresh output)).1 ≠ .outOfFuel →
              Outcome.Alike (· = ·) (· = ·) (runProgram fuel notes program (.fresh output))
                (runProgram more image (program.recast r) (.fresh output))) ∧
            (runProgram fuel notes program (.fresh output)).2.output.text.toList <+:
              (runProgram more image (program.recast r) (.fresh output)).2.output.text.toList) ∧
          (∀ more, fuel ≤ more →
            ((runProgram fuel image (program.recast r) (.fresh output)).1 ≠ .outOfFuel →
              Outcome.Alike (· = ·) (· = ·) (runProgram more notes program (.fresh output))
                (runProgram fuel image (program.recast r) (.fresh output))) ∧
            (runProgram fuel image (program.recast r) (.fresh output)).2.output.text.toList <+:
              (runProgram more notes program (.fresh output)).2.output.text.toList) := by
  refine ⟨isOk_recast nodup brackets, fun notes image analyzed analyzedToo fuel output => ?_⟩
  have same : ∀ {pace : Pace} {result other : Outcome × Machine},
      Outcome.Alike (program.rerun r notes image False pace).Causes
        (program.rerun r notes image False pace).spans result other →
      Outcome.Alike (· = ·) (· = ·) result other := by
    intro pace result other alike
    refine alike.mono (fun cause other causes => ?_) fun span place places => ?_
    · exact causes.elim Eq.symm fun lenient => lenient.1.elim
    · exact ((places.1.trans (brackets.span span))).symm
  constructor
  · intro more enough
    have faithful : (program.rerun r notes image False .ahead).Faithful :=
      faithful_brackets nodup brackets analyzed analyzedToo (by decide)
    have ends := Rerun.sameEnd faithful rfl (show Pace.ahead.goes fuel more from enough) output
    exact ⟨fun ended => same (ends.alike_of_ended (fun _ => ended) nofun),
      ends.printed_ahead nofun⟩
  · intro more enough
    have faithful : (program.rerun r notes image False .behind).Faithful :=
      faithful_brackets nodup brackets analyzed analyzedToo (by decide)
    have ends := Rerun.sameEnd faithful rfl (show Pace.behind.goes more fuel from enough) output
    exact ⟨fun ended => same (ends.alike_of_ended nofun fun _ => ended),
      ends.printed_behind nofun⟩

end Brackets

/-- Parentheses around all expressions and braces around all bodies, with identities from one on. -/
def bracketsFrom (base : Nat) : Recast where
  span := id
  name _ name := name
  paren node := some (base + 2 * node)
  brace node := some (base + 2 * node + 1)

theorem brackets_bracketsFrom {program : Program} {base : Nat}
    (below : ∀ id ∈ Stmt.idsOfAll program.body, id < base)
    (nodup : (Stmt.idsOfAll (program.recast (bracketsFrom base)).body).Nodup) :
    program.Brackets (bracketsFrom base) where
  span _ := rfl
  name _ _ := rfl
  fresh := by
    intro node id put inside
    have bound : id < base := below id inside
    have above : base ≤ id := by
      rcases put with put | put
      · rw [← Option.some.inj put]
        exact Nat.le_add_right _ _
      · rw [← Option.some.inj put, Nat.add_assoc]
        exact Nat.le_add_right _ _
    exact absurd bound (Nat.not_lt.mpr above)
  nodup := nodup

/-- Whether a source spells an accepted program that ends within some fuel, and that is accepted
and keeps its identities apart if all brackets are put into it. -/
def admitsBrackets (file : String) (source : List Char) (base fuel : Nat) : Bool :=
  passes file source fun program notes =>
    (Stmt.idsOfAll program.body).all (· < base) &&
      decide (Stmt.idsOfAll (program.recast (bracketsFrom base)).body).Nodup &&
      (runProgram fuel notes program (.fresh .unlimited)).1.hasEnd

theorem brackets_of_admits {file : String} {source : List Char} {base fuel : Nat}
    (admits : admitsBrackets file source base fuel = true) : ∃ program notes,
    checkSource file source = .ok (program, notes) ∧ program.Brackets (bracketsFrom base) ∧
      (runProgram fuel notes program (.fresh .unlimited)).1 ≠ .outOfFuel := by
  obtain ⟨program, notes, checked, rest⟩ := checked_of_passes admits
  rw [Bool.and_eq_true, Bool.and_eq_true, List.all_eq_true] at rest
  obtain ⟨⟨below, nodup⟩, ends⟩ := rest
  refine ⟨program, notes, checked, ?_, ?_⟩
  · exact brackets_bracketsFrom (fun id inside => of_decide_eq_true (below id inside))
      (of_decide_eq_true nodup)
  · intro none
    rw [none] at ends
    cases ends

/-- Branches and a loop without braces, an assignment, and a call that returns from a branch. -/
theorem bracketed_alike_everywhere : ∃ program notes image,
    checkSource "main.sigh" "var n = 0
fun f(a: Int): Int { if a > 1 return a else n = a return f(a + 1) }
while n < 2 n = n + f(1)
return [n, f(n)]".toList = .ok (program, notes) ∧
      program.Brackets (bracketsFrom 1000) ∧
      analyze (program.recast (bracketsFrom 1000)) = .ok image ∧
      Outcome.Alike (· = ·) (· = ·) (runProgram 40 notes program (.fresh .unlimited))
        (runProgram 80 image (program.recast (bracketsFrom 1000)) (.fresh .unlimited)) := by
  have admits : admitsBrackets "main.sigh" "var n = 0
fun f(a: Int): Int { if a > 1 return a else n = a return f(a + 1) }
while n < 2 n = n + f(1)
return [n, f(n)]".toList 1000 40 = true := by
    decide +kernel
  obtain ⟨program, notes, checked, brackets, ended⟩ := brackets_of_admits admits
  obtain ⟨read, analyzed⟩ := analyzed_of_checkSource checked
  obtain ⟨accepts, runs⟩ := bracketed_alike (nodup_of_readProgram read) brackets
  rw [analyzed] at accepts
  cases analyzedToo : analyze (program.recast (bracketsFrom 1000)) with
  | error _ => rw [analyzedToo] at accepts; cases accepts
  | ok image =>
    exact ⟨program, notes, image, checked, brackets, analyzedToo,
      ((runs notes image analyzed analyzedToo 40 .unlimited).1 80 (Nat.le_refl _)).1 ended⟩

end Program

end BoxScript
