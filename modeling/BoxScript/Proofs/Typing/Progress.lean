import BoxScript.Proofs.Typing.Readiness
import BoxScript.Run

/-!
# No rule is stuck

What a rule of a program asks about is answered or poisoned in the end, so the solver is left with
no rule, and reports none as stuck (`Program.never_stuck`). Nothing is assumed of the program but
that it is read from a source: it may be ill typed, and its names may be declared twice.
-/

set_option autoImplicit false
set_option maxRecDepth 100000

namespace BoxScript

/-- What the walk itself reports are duplicate names. -/
theorem errors_survey (steps : List Step) :
    ∀ error ∈ (survey steps).errors.toList, ∃ name, error.cause = .duplicate name := by
  have followed : ∀ (start : Survey),
      (∀ error ∈ start.errors.toList, ∃ name, error.cause = .duplicate name) →
      ∀ error ∈ (steps.foldl Survey.take start).errors.toList,
        ∃ name, error.cause = .duplicate name := by
    induction steps with
    | nil => exact fun start before => before
    | cons step rest ih =>
      intro start before
      apply ih
      cases step with
      | declare scope name kind mark position =>
        simp only [Survey.take, SymbolTable.declare]
        split
        · rename_i declared
          exact before
        · rename_i cause failed
          split at failed
          · cases failed
            rw [Array.toList_push, List.forall_mem_append, List.forall_mem_singleton]
            exact ⟨before, name, rfl⟩
          · cases failed
      | _ => exact before
  exact followed .start (by simp [Survey.start])

namespace Program

variable {program : Program} {file : String} {source : List Char}

/-- What the solver of a program has come to when no pass settles a further rule: the rules that are
left, and the findings. -/
def settled (program : Program) : List Rule × Findings :=
  Findings.settle program.symbols program.rules program.start

/-- The analysis accepts a program if the names in each scope are distinct and the solver has
settled all rules without an error. The facts are then those that the solver has settled on. -/
theorem analyze_eq_ok_iff {notes : Annotations} : analyze program = .ok notes ↔
    (survey program.steps).errors = #[] ∧ program.settled.1 = [] ∧
      program.settled.2.errors = [] ∧ notes = ⟨program.settled.2.facts, program.symbols⟩ := by
  have solved : Findings.solve program.symbols program.rules program.start =
      program.settled.2.giveUp program.settled.1 :=
    Findings.solve_eq program.symbols program.rules program.start
  simp only [analyze]
  change (if ((survey program.steps).errors.toList ++ (Findings.solve program.symbols program.rules
    program.start).errors).isEmpty = true then _ else _) = _ ↔ _
  split
  · rename_i clean
    rw [solved, List.isEmpty_iff, List.append_eq_nil_iff] at clean
    obtain ⟨named, quiet⟩ := clean
    obtain ⟨found, left⟩ := List.append_eq_nil_iff.mp quiet
    have none : program.settled.1 = [] := List.map_eq_nil_iff.mp left
    have same : Findings.solve program.symbols program.rules program.start = program.settled.2 := by
      rw [solved, none, Findings.giveUp_nil]
    constructor
    · intro accepted
      refine ⟨Array.toList_eq_nil_iff.mp named, none, found, ?_⟩
      rw [← Except.ok.inj accepted, ← same]
      rfl
    · rintro ⟨_, _, _, rfl⟩
      rw [← same]
      rfl
  · rename_i unclean
    constructor
    · intro accepted
      cases accepted
    · rintro ⟨named, none, found, _⟩
      refine absurd ?_ unclean
      rw [solved, none, Findings.giveUp_nil, named, found]
      rfl

theorem settled_settled (nodup : (Stmt.idsOfAll program.body).Nodup) :
    Findings.Settled program.symbols program.rules program.start program.settled.1
      program.settled.2 :=
  Findings.settle_settled (program.independent nodup program.symbols).isOpen

theorem saturated_settled (nodup : (Stmt.idsOfAll program.body).Nodup) :
    Step.Saturated program.symbols program.steps program.settled.2.facts where
  rules := by
    intro step walked rule collected owes confined
    apply confined.filled
    exact (settled_settled nodup).closed rule (List.mem_flatMap.mpr ⟨step, walked, collected⟩)
  facts := by
    intro step walked fact knows
    have seeded : fact.1 ∈ program.seeds.map (·.1) :=
      List.mem_map.mpr ⟨fact, List.mem_flatMap.mpr ⟨step, walked, knows⟩, rfl⟩
    obtain ⟨value, written⟩ := Option.isSome_iff_exists.mp (FactStore.isSome_lastWrite? seeded)
    have start : program.start.facts.get? fact.1 = some (.known value) := by
      simp only [Program.start, FactStore.get?_setAll, written]
    unfold FactStore.Filled
    rw [(settled_settled nodup).within _ _ start]
    rfl

theorem surveyed_of_readProgram (read : readProgram file source = .ok program) :
    ∃ kept, Walk.Surveyed program.symbols program.steps kept (Stmt.nodesOfAll program.body) := by
  obtain ⟨kept, thinned, ordered, reflects⟩ := reflects_thinned_survey program.body
  exact ⟨kept, Walk.sited_program program.body, thinned, ordered, reflects,
    fun mark name value member => placed_of_readProgram read member⟩

theorem nodup_of_readProgram (read : readProgram file source = .ok program) :
    (Stmt.idsOfAll program.body).Nodup := by
  obtain ⟨tokens, _, parsed⟩ := parsed_of_readProgram read
  exact nodup_ids_of_parse parsed

/-- In the end, all that a rule may ask is filled. -/
theorem confined_filled (read : readProgram file source = .ok program) :
    ∀ rule ∈ program.rules, ∃ owes,
      rule.Confined program.symbols program.settled.2.facts.Filled owes := by
  intro rule member
  obtain ⟨step, walked, collected⟩ := List.mem_flatMap.mp member
  obtain ⟨kept, surveyed⟩ := surveyed_of_readProgram read
  have saturated := saturated_settled (nodup_of_readProgram read)
  exact (surveyed.sited step walked).ready saturated surveyed rule collected

theorem settled_nil (read : readProgram file source = .ok program) : program.settled.1 = [] := by
  have left := (settled_settled (nodup_of_readProgram read)).left
  have none : (program.rules.filter fun rule =>
      (rule.attempt program.symbols program.settled.2.facts).isWaiting) = [] := by
    rw [List.filter_eq_nil_iff]
    intro rule member
    obtain ⟨owes, confined⟩ := confined_filled read rule member
    exact confined.not_waits
  rw [none] at left
  exact left.eq_nil

theorem errors_settled (read : readProgram file source = .ok program) :
    ∀ error ∈ program.settled.2.errors, ∀ what, error.cause ≠ .unresolved (.stuck what) := by
  have errors := (settled_settled (nodup_of_readProgram read)).errors
  intro error found
  rcases List.mem_append.mp (errors.mem_iff.mp found) with before | reported
  · cases before
  · obtain ⟨rule, member, here⟩ := List.mem_flatMap.mp reported
    obtain ⟨owes, confined⟩ := confined_filled read rule member
    exact confined.errors_own error here

theorem solve_settled (read : readProgram file source = .ok program) :
    Findings.solve program.symbols program.rules program.start = program.settled.2 := by
  rw [Findings.solve_eq]
  change program.settled.2.giveUp program.settled.1 = _
  rw [settled_nil read, Findings.giveUp_nil]

/-- Whether the program that a source spells is accepted, if it spells one. -/
def verdict (file : String) (source : List Char) : Option Bool :=
  match readProgram file source with
  | .error _ => none
  | .ok program => some (analyze program).isOk

theorem analyzed_of_verdict {accepted : Bool} (known : verdict file source = some accepted) :
    ∃ program, readProgram file source = .ok program ∧ (analyze program).isOk = accepted := by
  unfold verdict at known
  split at known
  · cases known
  · rename_i program read
    exact ⟨program, read, Option.some.inj known⟩

/-- No rule of a program is ever stuck: the solver is left with no rule, no error says that one is
stuck, and what a rule waits for, under whatever store, has a slot in the end. -/
theorem never_stuck (read : readProgram file source = .ok program) :
    (Findings.settle program.symbols program.rules program.start).1 = [] ∧
      (∀ errors, analyze program = .error errors →
        ∀ error ∈ errors, ∀ what, error.cause ≠ .unresolved (.stuck what)) ∧
      ∀ rule ∈ program.rules, ∀ facts key, rule.attempt program.symbols facts = .missing key →
        ((Findings.solve program.symbols program.rules program.start).facts.get? key).isSome
          = true := by
  refine ⟨settled_nil read, ?_, ?_⟩
  · intro errors rejected error member what
    simp only [analyze] at rejected
    split at rejected
    · cases rejected
    · cases rejected
      rcases List.mem_append.mp (List.mem_mergeSort.mp member) with surveyed | found
      · obtain ⟨name, is⟩ := errors_survey program.steps error surveyed
        rw [is]
        simp
      · exact errors_settled read error (solve_settled read ▸ found) what
  · intro rule member facts key waits
    obtain ⟨owes, confined⟩ := confined_filled read rule member
    rw [solve_settled read]
    exact confined.asks_of_missing waits

/-- Variables that ask for each other, one of them declared twice, and a function that misses its
result. -/
theorem never_stuck_in_rejected_program : ∃ program errors,
    readProgram "main.sigh" "var a = f(b)\nvar b = a\nvar b = c\nfun f(n: Int): Int { }".toList =
      .ok program ∧
      analyze program = .error errors ∧
      (Findings.settle program.symbols program.rules program.start).1 = [] ∧
      ∀ error ∈ errors, ∀ what, error.cause ≠ .unresolved (.stuck what) := by
  have known : verdict "main.sigh"
      "var a = f(b)\nvar b = a\nvar b = c\nfun f(n: Int): Int { }".toList = some false := by
    decide +kernel
  obtain ⟨program, read, failed⟩ := analyzed_of_verdict known
  obtain ⟨left, unstuck, _⟩ := never_stuck read
  cases rejected : analyze program with
  | ok notes =>
    rw [rejected] at failed
    cases failed
  | error errors => exact ⟨program, errors, read, rejected, left, unstuck errors rejected⟩

end Program

end BoxScript
