import BoxScript.Proofs.Recasting.Statements
import BoxScript.Proofs.Running.Programs
import BoxScript.Proofs.Running.Surroundings

/-!
# Runs of a tree cast anew

Each task of the run of an accepted program is evaluated as it is in the run of the tree cast anew
(`Rerun.evaluates`), by induction on the fuel. Parentheses or braces that are put around what a task
evaluates take one task more, and this is why the second run needs up to twice the fuel. So runs of
the two programs end alike: with values of the same text or errors that go with each other, and with
the same output (`Rerun.sameEnd`). A run that wants for fuel has printed a part of what the other
one prints.
-/

set_option autoImplicit false

namespace BoxScript

open Plan

/-- Ends of two runs that are alike: values of the same text, or errors whose causes and places go
with each other, or no end within the fuel; and the same output. -/
inductive Outcome.Alike (causes : RuntimeError.Cause → RuntimeError.Cause → Prop)
    (spans : Span → Span → Prop) : Outcome × Machine → Outcome × Machine → Prop
  | finished {value answer : Value} {machine image : Machine}
      (text : image.heap.text? answer = machine.heap.text? value)
      (output : image.output = machine.output) :
      Alike causes spans (.finished value, machine) (.finished answer, image)
  | failed {cause other : RuntimeError.Cause} {span place : Span} {machine image : Machine}
      (same : causes cause other) (places : spans span place)
      (output : image.output = machine.output) :
      Alike causes spans (.failed (.aborted ⟨cause, span⟩), machine)
        (.failed (.aborted ⟨other, place⟩), image)
  | outOfFuel {machine image : Machine} (output : image.output = machine.output) :
      Alike causes spans (.outOfFuel, machine) (.outOfFuel, image)

theorem Outcome.Alike.mono {causes further : RuntimeError.Cause → RuntimeError.Cause → Prop}
    {spans places : Span → Span → Prop} {result other : Outcome × Machine}
    (alike : Alike causes spans result other)
    (implies : ∀ cause other, causes cause other → further cause other)
    (within : ∀ span place, spans span place → places span place) :
    Alike further places result other := by
  cases alike with
  | finished text output => exact .finished text output
  | failed same places output => exact .failed (implies _ _ same) (within _ _ places) output
  | outOfFuel output => exact .outOfFuel output

theorem Outcome.Alike.output {causes : RuntimeError.Cause → RuntimeError.Cause → Prop}
    {spans : Span → Span → Prop} {result other : Outcome × Machine}
    (alike : Alike causes spans result other) : other.2.output = result.2.output := by
  cases alike <;> assumption

/-! ## Parentheses and braces -/

section Around

variable {notes : Annotations} {frame outer : FrameId} (less : Nat)

/-- Parentheses around an expression take one task more. -/
theorem evaluate_paren (mark : Mark) (e : Expr) :
    evaluate notes (less + 1) (.expr frame (.paren mark e)) = evaluate notes less (.expr frame e) :=
  bind_pure (evaluate notes less (.expr frame e))

/-- Braces around a body take one task more. -/
theorem evaluate_braces (mark : Mark) {s : Stmt} (noBlock : ∀ b, s ≠ .block b) :
    evaluate notes (less + 1) (.body outer (.block ⟨mark, [s]⟩)) =
      evaluate notes less (.body outer s) := by
  have braced : evaluate notes (less + 1) (.body outer (.block ⟨mark, [s]⟩)) =
      evaluate notes less (.block outer ⟨mark, [s]⟩) :=
    bind_pure (evaluate notes less (.block outer ⟨mark, [s]⟩))
  rw [braced]
  cases less with
  | zero => rfl
  | succ less =>
    have plan := Clause.body_of_alone notes outer noBlock
    exact congrArg (Plan.follow (evaluate notes less)) plan.symm

/-- A task cast anew is the task without what is put around it, or it has parentheses or braces
around that. -/
theorem Task.recast_cases (r : Recast) (task : Task) :
    task.recast r = task.inside r ∨
      (∃ frame e mark, task = .expr frame e ∧ ¬ r.Unwrapped ∧
        e.recast r = .paren mark (e.inside r)) ∨
      ∃ outer s mark, task = .body outer s ∧ ¬ r.Unwrapped ∧ (∀ b, s ≠ .block b) ∧
        r.enclose s (s.recast r) = .block ⟨mark, [s.recast r]⟩ := by
  cases task with
  | expr frame e =>
    cases put : r.paren e.mark.id with
    | none =>
      refine .inl ?_
      simp only [Task.recast, Task.inside, Expr.recast, Recast.wrap, put]
    | some id =>
      refine .inr (.inl ⟨frame, e, ⟨id, r.span e.mark.span⟩, rfl, fun unwrapped => ?_, ?_⟩)
      · rw [unwrapped.paren] at put
        cases put
      · simp only [Expr.recast, Recast.wrap, put]
  | body outer s =>
    rcases r.enclose_cases s (s.recast r) with ⟨_, _, same⟩ | ⟨noBlock, same | ⟨id, put, same⟩⟩
    · refine .inl ?_
      simp only [Task.recast, Task.inside, same]
    · refine .inl ?_
      simp only [Task.recast, Task.inside, same]
    · refine .inr (.inr ⟨outer, s, _, rfl, fun unwrapped => ?_, noBlock, same⟩)
      rw [unwrapped.brace] at put
      cases put
  | _ => exact .inl rfl

end Around

theorem Task.frame?_recast (r : Recast) (task : Task) : (task.recast r).frame? = task.frame? := by
  cases task <;> rfl

theorem Task.frame?_inside (r : Recast) (task : Task) : (task.inside r).frame? = task.frame? := by
  cases task <;> rfl

/-! ## Paces -/

theorem Pace.goes_less {pace : Pace} {fuel other : Nat} (goes : pace.goes (fuel + 1) (other + 1)) :
    pace.goes fuel other := by
  cases pace <;> simp only [Pace.goes] at goes ⊢ <;> omega

theorem Pace.goes_inside {pace : Pace} {fuel other : Nat}
    (goes : pace.goes (fuel + 1) (other + 2)) (uneven : pace ≠ .even) : pace.goes fuel other := by
  cases pace with
  | even => exact absurd rfl uneven
  | ahead | behind =>
    simp only [Pace.goes] at goes ⊢
    omega

theorem Pace.eq_behind {pace : Pace} {fuel : Nat} (goes : pace.goes (fuel + 1) 0) :
    pace = .behind := by
  cases pace <;> simp only [Pace.goes] at goes ⊢ <;> omega

theorem Pace.eq_behind_of_one {pace : Pace} {fuel : Nat} (goes : pace.goes (fuel + 1) 1)
    (uneven : pace ≠ .even) : pace = .behind := by
  cases pace with
  | even => exact absurd rfl uneven
  | behind => rfl
  | ahead =>
    simp only [Pace.goes] at goes
    omega

namespace Rerun

variable {rerun : Rerun}

/-! ## Evaluation -/

/-- The first run has no fuel. What the second one prints comes after what is printed already. -/
theorem evaluates_zero {other : Nat} (goes : rerun.pace.goes 0 other) :
    rerun.Evaluates (evaluate rerun.known.notes 0) (evaluate rerun.image other) := by
  intro task w promise _ _ machine image _ machines _ grounded
  cases pace : rerun.pace with
  | ahead =>
    refine .ahead pace rfl ?_
    rw [← machines.output]
    exact (sparing_evaluate rerun.image other _ image grounded).output
  | even | behind =>
    rw [pace] at goes
    have none : other = 0 := by
      simp only [Pace.goes] at goes
      omega
    subst none
    exact .alike (.outOfFuel machines)

/-- The second run has no fuel. What the first one prints comes after what is printed already. -/
theorem paced_behind {fuel : Nat} {task other : Task} {machine image : Machine}
    {post : task.Result → other.Result → Prop} (behind : rerun.pace = .behind)
    (machines : machine.Recasts rerun.recast image) (grounded : task.Grounded machine.heap) :
    rerun.Paced post (evaluate rerun.known.notes fuel task) (evaluate rerun.image 0 other) machine
      image := by
  refine .behind behind rfl ?_
  rw [machines.output]
  exact (sparing_evaluate rerun.known.notes fuel task machine grounded).output

variable (faithful : rerun.Faithful)

include faithful

/-- A task without what is put around it, if the tasks in it are evaluated alike. -/
theorem paced_inside {fuel other : Nat}
    (evaluates : rerun.Evaluates (evaluate rerun.known.notes fuel) (evaluate rerun.image other))
    {task : Task} {w : World} {promise : World → task.Result → Prop}
    (admits : Admits rerun.known w task promise) (places : rerun.Places task)
    {machine image : Machine} (types : w.Types rerun.known machine.heap)
    (machines : machine.Recasts rerun.recast image) (grounded : task.Grounded machine.heap)
    (groundedToo : (task.inside rerun.recast).Grounded image.heap) :
    rerun.Paced (rerun.Answers task (task.inside rerun.recast))
      (evaluate rerun.known.notes (fuel + 1) task)
      (evaluate rerun.image (other + 1) (task.inside rerun.recast)) machine image :=
  (mirrors_clause faithful admits places).follow (safe_clause faithful.accepted admits)
    (evaluate_sound faithful.accepted fuel) evaluates (sparing_evaluate rerun.known.notes fuel)
    (sparing_evaluate rerun.image other) types machines (sparing_clause _ grounded)
    (sparing_clause _ groundedToo)

/-- Tasks that may be asked for are evaluated alike. -/
theorem evaluates {fuel other : Nat} (goes : rerun.pace.goes fuel other) :
    rerun.Evaluates (evaluate rerun.known.notes fuel) (evaluate rerun.image other) := by
  induction fuel generalizing other with
  | zero => exact evaluates_zero goes
  | succ fuel ih =>
    intro task w promise admits places machine image types machines grounded groundedToo
    cases other with
    | zero => exact paced_behind (Pace.eq_behind goes) machines grounded
    | succ other =>
      have groundedInside : (task.inside rerun.recast).Grounded image.heap := by
        intro frame is
        refine groundedToo frame ?_
        rwa [Task.frame?_recast, ← Task.frame?_inside rerun.recast]
      -- What is put around the task takes one of the tasks of the second run.
      have around : ¬ rerun.recast.Unwrapped →
          rerun.Paced (rerun.Answers task (task.inside rerun.recast))
            (evaluate rerun.known.notes (fuel + 1) task)
            (evaluate rerun.image other (task.inside rerun.recast)) machine image := by
        intro wrapped
        have uneven : rerun.pace ≠ .even := fun even => wrapped (faithful.unwrapped even)
        cases other with
        | zero => exact paced_behind (Pace.eq_behind_of_one goes uneven) machines grounded
        | succ other =>
          exact paced_inside faithful (ih (Pace.goes_inside goes uneven)) admits places types
            machines grounded groundedInside
      rcases task.recast_cases rerun.recast with
        same | ⟨frame, e, mark, rfl, wrapped, same⟩ | ⟨outer, s, mark, rfl, wrapped, noBlock, same⟩
      · rw [same]
        exact paced_inside faithful (ih (Pace.goes_less goes)) admits places types machines grounded
          groundedInside
      · have inner := around wrapped
        simp only [Task.inside] at inner
        rw [← evaluate_paren other mark] at inner
        rw [Task.recast, same]
        exact inner
      · have inner := around wrapped
        simp only [Task.inside] at inner
        rw [← evaluate_braces other mark (Walk.recast_alone noBlock)] at inner
        rw [Task.recast, same]
        exact inner

/-! ## Programs -/

omit faithful in
/-- The frame of the builtins. -/
theorem steps_builtinFrame :
    rerun.Steps Eval.builtinFrame Eval.builtinFrame fun frame answer => answer = frame := by
  intro machine image machines
  have ran : ∀ machine : Machine, Eval.builtinFrame machine =
      .ok machine.heap.frames.size (Eval.entered machine none
        (SymbolTable.builtins.filterMap Eval.builtinBinding?) machine.heap.nextId) := by
    intro machine
    have names := Eval.defineBuiltins_eq machine.heap.frames.size
      { machine with heap := (machine.heap.newFrame ⟨[], none, none⟩).2 } SymbolTable.builtins
    rw [Eval.bound_newFrame] at names
    rw [Eval.builtinFrame, Eval.change_bind]
    exact Eval.bind_ok names
  have names : rerun.recast.Names
      (Frame.bindAll (SymbolTable.builtins.filterMap Eval.builtinBinding?) [])
      (Frame.bindAll (SymbolTable.builtins.filterMap Eval.builtinBinding?) []) :=
    Recast.Names.bindAll (fun node _ => node = none) (by rintro _ _ _ _ rfl rfl; rfl) .nil
      (by simp) (by simp [SymbolTable.builtins, Eval.builtinBinding?, DeclKind.builtinValue?])
  have frames : Frame.Recasts rerun.recast
      ⟨Frame.bindAll (SymbolTable.builtins.filterMap Eval.builtinBinding?) [], none, none⟩
      ⟨Frame.bindAll (SymbolTable.builtins.filterMap Eval.builtinBinding?) [], none, none⟩ :=
    ⟨names, rfl, rfl, by simp⟩
  rw [ran, ran, machines.heap.nextId]
  exact .ok machines.heap.count
    ⟨(machines.heap.newFrame frames).2.withNextId _, machines.output⟩

variable {program : Program} {notes : Annotations}

/-- The start of a program, and that of the program cast anew. -/
theorem steps_start (runs : rerun.known = program.analysis notes) (w : World) :
    rerun.StepsIn w (Eval.start notes program)
      (Eval.start rerun.image (program.recast rerun.recast)) fun root answer => answer = root := by
  have notesEq : rerun.known.notes = notes := by rw [runs]; rfl
  have walked : Walk.Body rerun.known.steps 1 .root SymbolTable.builtinScope none program.body := by
    rw [runs]
    exact Walk.body_program program.body
  rw [Eval.start_eq, Eval.start_eq, ← notesEq]
  have safe : Eval.Safe rerun.known (fun _ => False) w Eval.builtinFrame fun later frame =>
      later.scope? frame = some SymbolTable.builtinScope :=
    Eval.safe_builtinFrame faithful.accepted
  refine StepsIn.bind safe steps_builtinFrame.inside ?_
  rintro later _ outer _ _ rfl
  exact steps_enter faithful outer walked

/-- The run of a program, and that of the program cast anew. -/
theorem paced_program (runs : rerun.known = program.analysis notes) {fuel other : Nat}
    (goes : rerun.pace.goes fuel other) (output : Sink) :
    rerun.Paced (fun value answer => answer = value.recast rerun.recast)
      (Eval.program notes fuel program)
      (Eval.program rerun.image other (program.recast rerun.recast)) (.fresh output)
      (.fresh output) := by
  have accepted := faithful.accepted
  rw [runs] at accepted
  have notesEq : rerun.known.notes = notes := by rw [runs]; rfl
  have walked : Walk.Body rerun.known.steps 1 .root SymbolTable.builtinScope none program.body := by
    rw [runs]
    exact Walk.body_program program.body
  have safe : Eval.Safe rerun.known (fun _ => False) ⟨[], [], []⟩ (Eval.start notes program)
      fun later root => later.scope? root = some 1 := by
    rw [runs]
    exact Eval.safe_start accepted
  have ends := safe (.fresh output) World.types_empty
  have started := steps_start faithful runs ⟨[], [], []⟩ (.fresh output) (.fresh output)
    World.types_empty ⟨.empty, rfl⟩
  refine Paced.bind (.alike started)
    (fun root after ran => Eval.spares_toplevel notes fuel (Eval.grounds_of_start ran) program.body)
    (fun root after ran => Eval.spares_toplevel rerun.image other (Eval.grounds_of_start ran)
      (program.recast rerun.recast).body) ?_
  rintro _ root after afterToo ran ranToo rfl recasts
  rw [ran] at ends
  obtain ⟨later, _, types, home⟩ := ends
  have admits : Admits rerun.known later (.sequence root program.body) _ :=
    .sequence home Nat.zero_lt_one (Nat.lt_succ_self 1) walked.owned
  have grounded : (Task.sequence root program.body).Grounded after.heap := by
    rintro _ ⟨⟩
    exact Eval.grounds_of_start ran
  have groundedToo : (Task.sequence root (program.recast rerun.recast).body).Grounded
      afterToo.heap := by
    rintro _ ⟨⟩
    exact Eval.grounds_of_start ranToo
  have evaluated := evaluates faithful goes admits trivial types recasts grounded groundedToo
  rw [notesEq] at evaluated
  refine Paced.bind evaluated (fun _ last _ => .refl last) (fun _ last _ => .refl last) ?_
  intro completion answer _ _ _ _ holds recasts
  cases Answer.completion.inj holds
  exact .alike (.ok (Completion.value_recast _ _) recasts)

/-! ## Ends of runs -/

omit faithful in
/-- Runs end alike, or one of them wants for fuel, as the pace has it, and has printed a part of
what the other one has. -/
inductive SameEnd (rerun : Rerun) : Outcome × Machine → Outcome × Machine → Prop
  | alike {result other : Outcome × Machine}
      (ends : Outcome.Alike rerun.Causes rerun.spans result other) : SameEnd rerun result other
  | ahead {machine : Machine} {other : Outcome × Machine} (pace : rerun.pace = .ahead)
      (printed : machine.output.text.toList <+: other.2.output.text.toList) :
      SameEnd rerun (.outOfFuel, machine) other
  | behind {result : Outcome × Machine} {image : Machine} (pace : rerun.pace = .behind)
      (printed : image.output.text.toList <+: result.2.output.text.toList) :
      SameEnd rerun result (.outOfFuel, image)

namespace SameEnd

variable {result other : Outcome × Machine}

omit faithful in
/-- Runs end alike if neither wants for fuel alone. -/
theorem alike_of_ended (ends : rerun.SameEnd result other)
    (ahead : rerun.pace = .ahead → result.1 ≠ .outOfFuel)
    (behind : rerun.pace = .behind → other.1 ≠ .outOfFuel) :
    Outcome.Alike rerun.Causes rerun.spans result other := by
  cases ends with
  | alike ends => exact ends
  | ahead pace => exact absurd rfl (ahead pace)
  | behind pace => exact absurd rfl (behind pace)

omit faithful in
/-- The second run has printed what the first one has, if it has fuel in plenty. -/
theorem printed_ahead (ends : rerun.SameEnd result other) (notBehind : rerun.pace ≠ .behind) :
    result.2.output.text.toList <+: other.2.output.text.toList := by
  cases ends with
  | alike ends => simp only [ends.output, List.prefix_refl]
  | ahead _ printed => exact printed
  | behind pace => exact absurd pace notBehind

omit faithful in
/-- The first run has printed what the second one has, if it has fuel in plenty. -/
theorem printed_behind (ends : rerun.SameEnd result other) (notAhead : rerun.pace ≠ .ahead) :
    other.2.output.text.toList <+: result.2.output.text.toList := by
  cases ends with
  | alike ends => simp only [ends.output, List.prefix_refl]
  | ahead pace => exact absurd pace notAhead
  | behind _ printed => exact printed

end SameEnd

omit faithful in
/-- What a run leaves is left by its steps. -/
theorem runProgram_left (fuel : Nat) (notes : Annotations) (program : Program) (machine : Machine) :
    (runProgram fuel notes program machine).2 = (Eval.program notes fuel program).left machine := by
  unfold runProgram EStateM.run Eval.left
  cases Eval.program notes fuel program machine with
  | ok _ _ => rfl
  | error halt _ => cases halt <;> rfl

omit faithful in
theorem runProgram_outOfFuel {fuel : Nat} {notes : Annotations} {program : Program}
    {machine after : Machine} (stops : Eval.program notes fuel program machine =
      .error .outOfFuel after) : runProgram fuel notes program machine = (.outOfFuel, after) := by
  rw [runProgram, EStateM.run, stops]

/-- Runs of an accepted program and of the program cast anew end alike. -/
theorem sameEnd (runs : rerun.known = program.analysis notes) {fuel other : Nat}
    (goes : rerun.pace.goes fuel other) (output : Sink) :
    rerun.SameEnd (runProgram fuel notes program (.fresh output))
      (runProgram other rerun.image (program.recast rerun.recast) (.fresh output)) := by
  cases paced_program faithful runs goes output with
  | ahead pace stops printed =>
    rw [runProgram_outOfFuel stops]
    refine .ahead pace ?_
    rwa [runProgram_left]
  | behind pace stops printed =>
    rw [runProgram_outOfFuel stops]
    refine .behind pace ?_
    rwa [runProgram_left]
  | alike ends =>
    unfold runProgram EStateM.run
    generalize Eval.program notes fuel program (.fresh output) = result at ends
    generalize Eval.program rerun.image other (program.recast rerun.recast) (.fresh output) = answer
      at ends
    cases ends with
    | ok holds machines =>
      subst holds
      exact .alike (.finished (machines.heap.text? _) machines.output)
    | failed causes spans machines => exact .alike (.failed causes spans machines.output)
    | outOfFuel machines => exact .alike (.outOfFuel machines.output)

end Rerun

end BoxScript
