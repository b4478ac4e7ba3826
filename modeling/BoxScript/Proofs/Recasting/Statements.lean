import BoxScript.Proofs.Recasting.Entering
import BoxScript.Proofs.Recasting.Expressions
import BoxScript.Proofs.Running.Statements

/-!
# Calls and statements run alike

The plans of calls and statements, and those of the calls and statements cast anew, mirror one
another. Braces that are put around the body of a branch or loop do not belong to its plan, for a
body without braces has a frame of its own too. So the plan of each task that may be asked for
mirrors that of the task cast anew, what is put around it aside (`mirrors_clause`).
-/

set_option autoImplicit false

namespace BoxScript

open Plan

/-- A task cast anew, without the parentheses or braces that are put around it. -/
def Task.inside (r : Recast) : Task → Task
  | .expr frame e => .expr frame (e.inside r)
  | .body outer s => .body outer (s.recast r)
  | task => task.recast r

theorem Completion.value_recast (r : Recast) (completion : Completion) :
    (completion.recast r).value = completion.value.recast r := by
  cases completion <;> rfl

namespace Clause

variable {rerun : Rerun} {w : World}

/-- Completions of which the second one is the first one cast anew. -/
abbrev SameCompletion (rerun : Rerun) : World → Completion → Completion → Prop :=
  fun _ completion answer => answer = completion.recast rerun.recast

/-! ## Calls -/

theorem mirrors_call {span : Span} (spans : rerun.spans span (rerun.recast.span span))
    (callee : Value) (arguments : List Value) :
    Mirrors rerun (SameValue rerun) w (call callee arguments span)
      (call (callee.recast rerun.recast) (arguments.map (Value.recast rerun.recast))
        (rerun.recast.span span)) := by
  have invoked : ∀ decl outer, Mirrors rerun (SameValue rerun) w
      (run (.invoke decl outer arguments span))
      (run (.invoke (decl.recast rerun.recast) outer (arguments.map (Value.recast rerun.recast))
        (rerun.recast.span span))) := fun decl outer =>
    (mirrors_task rerun (.invoke decl outer arguments span) spans).mono
      fun _ _ _ holds => Answer.value.inj holds
  cases callee with
  | function closure => exact invoked closure.decl closure.frame
  | method receiver decl => exact invoked decl receiver
  | constructor cls => exact mirrors_step (Rerun.steps_construct cls arguments).inside
  | builtin function =>
    exact mirrors_step (Rerun.steps_callBuiltin spans function arguments).inside
  | _ => exact mirrors_step (Rerun.steps_failSame spans).inside

theorem mirrors_invoke (faithful : rerun.Faithful) {decl : FunctionDecl} {outer : FrameId}
    {arguments : List Value} {span : Span} {scope inner : ScopeId}
    (spans : rerun.spans span (rerun.recast.span span))
    (walked : Walk.FunctionWalked rerun.known.steps scope inner decl) :
    Mirrors rerun (SameValue rerun) w (invoke rerun.known.notes decl outer arguments span)
      (invoke rerun.image (decl.recast rerun.recast) outer
        (arguments.map (Value.recast rerun.recast)) (rerun.recast.span span)) := by
  have typed : rerun.image.declType? decl.mark.id = rerun.known.notes.declType? decl.mark.id :=
    faithful.types _ walked.signature ⟨decl.mark.id, .declType⟩ List.mem_cons_self
  simp only [invoke, FunctionDecl.parameters_recast, List.length_map, FunctionDecl.mark_recast,
    Recast.mark_id, typed, FunctionDecl.name_recast]
  split
  · have entered := Rerun.steps_enterCall faithful outer arguments walked
    rw [FunctionDecl.parameters_recast] at entered
    refine Mirrors.bind (mirrors_step entered.inside) ?_
    rintro _ _ frame _ rfl
    obtain ⟨mark, name, parameters, result, body⟩ := decl
    refine Mirrors.bind (mirrors_task rerun (.block frame body) trivial) ?_
    intro _ completion answer _ holds
    cases Answer.completion.inj holds
    refine mirrors_pure ?_
    rw [Completion.value_recast, Value.coerce_recast]
  · exact mirrors_step (Rerun.steps_failSame spans).inside

/-! ## Blocks and bodies -/

section Statements

variable (faithful : rerun.Faithful) {frame : FrameId} {scope inner : ScopeId}
  {kind : ScopeKind} {enclosing : Option FunctionDecl}

include faithful

/-- Statements that are entered run alike. -/
theorem mirrors_entered {body : List Stmt}
    (walked : Walk.Body rerun.known.steps inner kind scope enclosing body) :
    Mirrors rerun (SameCompletion rerun) w
      (do let frame ← Eval.enter rerun.known.notes frame body
          run (.sequence frame body) : Plan Completion)
      (do let frame ← Eval.enter rerun.image frame (Stmt.recastAll rerun.recast body)
          run (.sequence frame (Stmt.recastAll rerun.recast body))) := by
  refine Mirrors.bind (mirrors_step (Rerun.steps_enter faithful frame walked)) ?_
  rintro _ _ inside _ rfl
  exact (mirrors_task rerun (.sequence inside body) trivial).mono
    fun _ _ _ holds => Answer.completion.inj holds

theorem mirrors_block {b : Block}
    (walked : Walk.Body rerun.known.steps inner kind scope enclosing b.body) :
    Mirrors rerun (SameCompletion rerun) w (block rerun.known.notes frame b)
      (block rerun.image frame (b.recast rerun.recast)) := by
  obtain ⟨mark, statements⟩ := b
  exact mirrors_entered faithful walked

/-- A body runs alike, the braces aside that are put around it. -/
theorem mirrors_body {next : ScopeId} {s : Stmt} (inside : scope < next)
    (owned : Step.Owned rerun.known.steps next (Walk.branch scope next enclosing s)) :
    Mirrors rerun (SameCompletion rerun) w (body rerun.known.notes frame s)
      (body rerun.image frame (s.recast rerun.recast)) := by
  by_cases isBlock : ∃ b, s = .block b
  · obtain ⟨b, rfl⟩ := isBlock
    exact (mirrors_task rerun (.block frame b) trivial).mono
      fun _ _ _ holds => Answer.completion.inj holds
  · have noBlock : ∀ b, s ≠ .block b := fun b same => isBlock ⟨b, same⟩
    rw [body_of_alone _ _ noBlock, body_of_alone _ _ (Walk.recast_alone noBlock)]
    exact mirrors_entered faithful (Walk.body_of_branch noBlock inside owned)

/-! ## Variables -/

/-- The end of the declaration of a variable. -/
theorem steps_define {decl : VariableDecl} (home : w.scope? frame = some scope)
    (walked : Walk.VariableWalked rerun.known.steps scope decl) (value : Value) :
    rerun.StepsIn w (Eval.update (·.define frame decl.name (some decl.mark.id) value))
      (Eval.update (·.define frame (decl.recast rerun.recast).name (some decl.mark.id)
        (value.recast rerun.recast))) fun _ _ => True := by
  intro machine image types machines
  obtain ⟨⟨_, cls⟩, shaped, rfl⟩ := Option.map_eq_some_iff.mp home
  obtain ⟨stored, present, stands⟩ := types.frame shaped
  obtain ⟨found, here⟩ := types.scope_present faithful.accepted home
  have member : (⟨decl.name, .var, some decl.mark.id, _,
      decl.mark.span.stop.offset, decl.mark.span⟩ :
      Declaration) ∈ Step.contents _ rerun.known.steps :=
    List.mem_append_right _ (Step.mem_declared.mpr ⟨_, _, _, _, walked.declares, rfl⟩)
  obtain ⟨held, looked, binds⟩ :=
    stands.names.binding faithful.accepted here member (by simp)
  have node : held.decl = some decl.mark.id := binds.node
  -- The members of a box are no variables.
  have noInstance : cls = none := by
    cases cls with
    | none => rfl
    | some cls =>
      obtain ⟨around, box, walkedBox, _⟩ := stands.made cls rfl
      rw [faithful.accepted.contents_eq walkedBox.opened, walkedBox.declared] at member
      obtain ⟨found, _, same⟩ := List.mem_map.mp member
      cases found <;> cases congrArg Declaration.kind same
  refine .ok trivial ⟨machines.heap.modifyNames frame ?_, machines.output⟩
  intro before after there related
  rw [present] at there
  cases there
  have rebound : rerun.recast.Names
      (Frame.bind decl.name ⟨some decl.mark.id, some value⟩ stored.names) _ :=
    related.names.rebind faithful.injective looked node.symm
  refine ⟨rebound, related.parent, related.boxClass, fun isSome => ?_⟩
  rw [stands.instanceOf, noInstance] at isSome
  cases isSome

/-- A variable starts with the same value. -/
theorem mirrors_varDecl {decl : VariableDecl} (home : w.scope? frame = some scope)
    (walked : Walk.VariableWalked rerun.known.steps scope decl) :
    Mirrors rerun (SameCompletion rerun) w (varDecl rerun.known.notes frame decl)
      (varDecl rerun.image frame (decl.recast rerun.recast)) := by
  have typed : rerun.image.declType? decl.mark.id = rerun.known.notes.declType? decl.mark.id := by
    have found := walked.typed
    obtain ⟨mark, name, form⟩ := decl
    cases form with
    | typed type value =>
      obtain ⟨⟨what, step⟩, _⟩ := found
      exact faithful.declType? step
    | inferred value =>
      exact faithful.types _ found.2 ⟨mark.id, .declType⟩ List.mem_cons_self
  have value : (decl.recast rerun.recast).value = decl.value.map (Expr.recast rerun.recast) := by
    obtain ⟨mark, name, form⟩ := decl
    cases form <;> rfl
  have define : ∀ {later : World} (value : Value), w ≤ later →
      Mirrors rerun (SameCompletion rerun) later
        (do Eval.update (·.define frame decl.name (some decl.mark.id) value)
            return .normal : Plan Completion)
        (do Eval.update (·.define frame (decl.recast rerun.recast).name (some decl.mark.id)
              (value.recast rerun.recast))
            return .normal) := fun value grown =>
    Mirrors.bind (mirrors_step (steps_define faithful (World.scope?_mono grown home) walked value))
      fun _ _ _ _ _ => mirrors_pure rfl
  unfold varDecl
  simp only [show (decl.recast rerun.recast).mark.id = decl.mark.id from rfl, typed, value]
  cases decl.value with
  | some e =>
    refine Mirrors.bind (mirrors_part rerun frame e) ?_
    rintro later value _ grown rfl
    rw [Value.coerce_recast]
    exact define _ grown
  | none =>
    cases rerun.known.notes.declType? decl.mark.id with
    | none => exact define .null (le_refl w)
    | some ty =>
      have started : rerun.Steps (Eval.change (·.default ty)) (Eval.change (·.default ty))
          fun value answer => answer = value.recast rerun.recast :=
        Rerun.steps_change fun heap image recasts => recasts.default ty
      refine Mirrors.bind (mirrors_step started.inside) ?_
      rintro later value _ grown rfl
      exact define value grown

/-! ## Statements -/

omit faithful in
theorem mirrors_sequence (rerun : Rerun) (frame : FrameId) (statements : List Stmt) :
    Mirrors rerun (SameCompletion rerun) w (sequence frame statements)
      (sequence frame (Stmt.recastAll rerun.recast statements)) := by
  cases statements with
  | nil => exact mirrors_pure rfl
  | cons s rest =>
    refine Mirrors.bind (mirrors_task rerun (.stmt frame s) trivial) ?_
    intro _ completion answer _ holds
    cases Answer.completion.inj holds
    cases completion with
    | returned value => exact mirrors_pure rfl
    | normal =>
      exact (mirrors_task rerun (.sequence frame rest) trivial).mono
        fun _ _ _ holds => Answer.completion.inj holds

omit faithful in
theorem mirrors_branch (rerun : Rerun) (frame : FrameId) (s : Stmt) :
    Mirrors rerun (SameCompletion rerun) w (run (.body frame s))
      (run (.body frame (rerun.recast.enclose s (s.recast rerun.recast)))) :=
  (mirrors_task rerun (.body frame s) trivial).mono fun _ _ _ holds => Answer.completion.inj holds

omit faithful in
theorem mirrors_loop (rerun : Rerun) (frame : FrameId) (test : Expr) (inner : Stmt) :
    Mirrors rerun (SameCompletion rerun) w (loop frame test inner)
      (loop frame (test.recast rerun.recast)
        (rerun.recast.enclose inner (inner.recast rerun.recast))) := by
  refine Mirrors.bind (mirrors_test rerun frame test) ?_
  rintro _ _ truth _ rfl
  cases truth with
  | false => exact mirrors_pure rfl
  | true =>
    refine Mirrors.bind (mirrors_branch rerun frame inner) ?_
    rintro _ completion _ _ rfl
    cases completion with
    | returned value => exact mirrors_pure rfl
    | normal =>
      exact (mirrors_task rerun (.loop frame test inner) trivial).mono
        fun _ _ _ holds => Answer.completion.inj holds

theorem mirrors_stmt {next : ScopeId} {s : Stmt} (home : w.scope? frame = some scope)
    (owned : Step.Owned rerun.known.steps next (Walk.stmt scope next enclosing s)) :
    Mirrors rerun (SameCompletion rerun) w (stmt rerun.known.notes frame s)
      (stmt rerun.image frame (s.recast rerun.recast)) := by
  cases s with
  | block b =>
    exact (mirrors_task rerun (.block frame b) trivial).mono
      fun _ _ _ holds => Answer.completion.inj holds
  | expression mark e =>
    refine Mirrors.bind (mirrors_part rerun frame e) ?_
    exact fun _ _ _ _ _ => mirrors_pure rfl
  | var decl => exact mirrors_varDecl faithful home (Walk.variableWalked_of_subset owned.subset)
  | ifElse mark test thenBody elseBody =>
    cases elseBody with
    | none =>
      refine Mirrors.bind (mirrors_test rerun frame test) ?_
      rintro _ _ truth _ rfl
      cases truth with
      | true => exact mirrors_branch rerun frame thenBody
      | false => exact mirrors_pure rfl
    | some elseBody =>
      refine Mirrors.bind (mirrors_test rerun frame test) ?_
      rintro _ _ truth _ rfl
      cases truth with
      | true => exact mirrors_branch rerun frame thenBody
      | false => exact mirrors_branch rerun frame elseBody
  | «while» mark test inner =>
    exact (mirrors_task rerun (.loop frame test inner) trivial).mono
      fun _ _ _ holds => Answer.completion.inj holds
  | «return» mark value =>
    cases value with
    | none => exact mirrors_pure rfl
    | some e =>
      refine Mirrors.bind (mirrors_part rerun frame e) ?_
      rintro _ value _ _ rfl
      exact mirrors_pure rfl
  | _ => exact mirrors_pure rfl

end Statements

end Clause

/-! ## Tasks -/

/-- The plan of a task that may be asked for mirrors that of the task cast anew. -/
theorem mirrors_clause {rerun : Rerun} {w : World} {task : Task}
    {promise : World → task.Result → Prop} (faithful : rerun.Faithful)
    (admits : Admits rerun.known w task promise) (places : rerun.Places task) :
    Mirrors rerun (fun _ => rerun.Answers task (task.inside rerun.recast)) w
      (clause rerun.known.notes task) (clause rerun.image (task.inside rerun.recast)) := by
  cases admits with
  | expr home walked =>
    exact (Clause.mirrors_inside faithful home walked).mono
      fun _ _ _ holds => congrArg Answer.value holds
  | exprs home walked =>
    exact (Clause.mirrors_exprs rerun _ _).mono fun _ _ _ holds => congrArg Answer.values holds
  | condition home walked typed =>
    exact (Clause.mirrors_condition faithful walked).mono
      fun _ _ _ holds => congrArg Answer.truth holds
  | assign home target walked assignable targetTyped valueTyped fits typed =>
    exact (Clause.mirrors_assign faithful places target assignable).mono
      fun _ _ _ holds => congrArg Answer.value holds
  | call shape suit =>
    exact (Clause.mirrors_call places _ _).mono fun _ _ _ holds => congrArg Answer.value holds
  | invoke callable suit =>
    obtain ⟨scope, inner, walked, _⟩ := callable
    exact (Clause.mirrors_invoke faithful places walked).mono
      fun _ _ _ holds => congrArg Answer.value holds
  | block home body returns =>
    exact (Clause.mirrors_block faithful body).mono
      fun _ _ _ holds => congrArg Answer.completion holds
  | sequence home positive inside owned =>
    exact (Clause.mirrors_sequence rerun _ _).mono
      fun _ _ _ holds => congrArg Answer.completion holds
  | stmt home positive inside owned =>
    exact (Clause.mirrors_stmt faithful home owned).mono
      fun _ _ _ holds => congrArg Answer.completion holds
  | loop home walked typed inside owned =>
    exact (Clause.mirrors_loop rerun _ _ _).mono
      fun _ _ _ holds => congrArg Answer.completion holds
  | body home inside owned =>
    exact (Clause.mirrors_body faithful inside owned).mono
      fun _ _ _ holds => congrArg Answer.completion holds

end BoxScript
