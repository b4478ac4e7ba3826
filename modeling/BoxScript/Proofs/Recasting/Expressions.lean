import BoxScript.Proofs.Recasting.Parts
import BoxScript.Proofs.Recasting.Plans
import BoxScript.Proofs.Running.Expressions

/-!
# Expressions are evaluated alike

For each form of expression, and for the tasks that expressions come down to, the plan of the task
and that of the task cast anew mirror one another. Parentheses that are put around an expression do
not belong to its plan: the plan is that of the expression inside them.
-/

set_option autoImplicit false

namespace BoxScript

open Plan

namespace Clause

variable {rerun : Rerun} {w : World} {frame : FrameId} {scope : ScopeId}

/-- Values of which the second one is the first one cast anew. -/
abbrev SameValue (rerun : Rerun) : World → Value → Value → Prop :=
  fun _ value answer => answer = value.recast rerun.recast

/-- The value of a part of an expression. -/
theorem mirrors_part (rerun : Rerun) (frame : FrameId) (e : Expr) :
    Mirrors rerun (SameValue rerun) w (run (.expr frame e))
      (run (.expr frame (e.recast rerun.recast))) :=
  (mirrors_expr rerun frame e).mono fun _ _ _ holds => holds.2

/-- The values of parts of an expression. -/
theorem mirrors_parts (rerun : Rerun) (frame : FrameId) (es : List Expr) :
    Mirrors rerun (fun _ values answer => answer = values.map (Value.recast rerun.recast)) w
      (run (.exprs frame es)) (run (.exprs frame (Expr.recastAll rerun.recast es))) :=
  (mirrors_task rerun (.exprs frame es) trivial).mono
    fun _ _ _ holds => Answer.values.inj holds

/-- The Bool that a condition has come to. -/
theorem mirrors_test (rerun : Rerun) (frame : FrameId) (e : Expr) :
    Mirrors rerun (fun _ truth answer => answer = truth) w (run (.condition frame e))
      (run (.condition frame (e.recast rerun.recast))) :=
  (mirrors_task rerun (.condition frame e) trivial).mono fun _ _ _ holds => Answer.truth.inj holds

/-! ## Single expressions -/

section Forms

variable (faithful : rerun.Faithful) {mark : Mark}

include faithful

/-- The type of an expression, which is the same in both runs. -/
theorem typeOf?_of_walked {e : Expr} (walked : rerun.known.Walked scope e) :
    rerun.image.typeOf? e.mark.id = rerun.known.notes.typeOf? e.mark.id := by
  obtain ⟨expectation, step⟩ := walked.step
  exact faithful.typeOf? step

theorem spans_of_walked {e : Expr} (walked : rerun.known.Walked scope e) :
    rerun.spans e.mark.span (rerun.recast.span e.mark.span) := by
  obtain ⟨expectation, step⟩ := walked.step
  exact faithful.spans step

theorem mirrors_array {elements : List Expr}
    (walked : rerun.known.Walked scope (.array mark elements)) :
    Mirrors rerun (SameValue rerun) w (expr rerun.known.notes frame (.array mark elements))
      (expr rerun.image frame ((Expr.array mark elements).inside rerun.recast)) := by
  have typed : rerun.image.typeOf? mark.id = rerun.known.notes.typeOf? mark.id :=
    typeOf?_of_walked faithful walked
  simp only [Expr.inside, expr, Recast.mark_id, typed]
  refine Mirrors.bind (mirrors_parts rerun frame elements) ?_
  rintro later values _ _ rfl
  have row : ∀ values : List Value, rerun.Steps (Eval.change (·.newRow values.toArray))
      (Eval.change (·.newRow (values.map (Value.recast rerun.recast)).toArray))
      fun row answer => answer = row := by
    intro values
    rw [← List.map_toArray]
    exact Rerun.steps_change fun heap image recasts => recasts.newRow values.toArray
  have coerced : ∀ component : Option Ty, (values.map (Value.recast rerun.recast)).map
      (·.coerce component) = (values.map (·.coerce component)).map (Value.recast rerun.recast) := by
    intro component
    simp only [List.map_map, Function.comp_def, Value.coerce_recast]
  rw [coerced]
  refine Mirrors.bind (mirrors_step (row _).inside) ?_
  rintro _ _ row _ rfl
  exact mirrors_pure rfl

theorem mirrors_unary {op : PrefixOp} {operand : Expr}
    (walked : rerun.known.Walked scope (.unary mark op operand)) :
    Mirrors rerun (SameValue rerun) w (expr rerun.known.notes frame (.unary mark op operand))
      (expr rerun.image frame ((Expr.unary mark op operand).inside rerun.recast)) := by
  refine Mirrors.bind (mirrors_part rerun frame operand) ?_
  rintro later value _ _ rfl
  refine mirrors_step ?_
  rw [Value.unary_recast]
  exact (Rerun.steps_lift (spans_of_walked faithful walked)).inside

theorem mirrors_binary {op : BinaryOp} {left right : Expr}
    (walked : rerun.known.Walked scope (.binary mark op left right)) :
    Mirrors rerun (SameValue rerun) w (expr rerun.known.notes frame (.binary mark op left right))
      (expr rerun.image frame ((Expr.binary mark op left right).inside rerun.recast)) := by
  have bool : ∀ {later : World} {value : Bool}, Mirrors rerun (SameValue rerun) later
      (pure (.bool value) : Plan Value) (pure (.bool value)) := mirrors_pure rfl
  have second : ∀ {later : World}, Mirrors rerun (SameValue rerun) later
      (do return .bool (← run (.condition frame right)) : Plan Value)
      (do return .bool (← run (.condition frame (right.recast rerun.recast)))) := by
    intro later
    refine Mirrors.bind (mirrors_test rerun frame right) ?_
    rintro _ _ truth _ rfl
    exact bool
  by_cases logical : op.opClass = .logical
  · cases op <;> cases logical
    all_goals
      refine Mirrors.bind (mirrors_test rerun frame left) ?_
      rintro later _ truth _ rfl
      cases truth
    · exact bool
    · exact second
    · exact second
    · exact bool
  · have plan : ∀ (notes : Annotations) (mark : Mark) (left right : Expr),
        expr notes frame (.binary mark op left right) = (do
          let a ← run (.expr frame left)
          let b ← run (.expr frame right)
          Eval.binary notes mark op a b) := by
      intro notes mark left right
      cases op <;> first | rfl | exact absurd rfl logical
    rw [Expr.inside, plan, plan]
    refine Mirrors.bind (mirrors_part rerun frame left) ?_
    rintro _ a _ _ rfl
    refine Mirrors.bind (mirrors_part rerun frame right) ?_
    rintro _ b _ _ rfl
    have typed : rerun.image.typeOf? (rerun.recast.mark mark).id =
        rerun.known.notes.typeOf? mark.id := typeOf?_of_walked faithful walked
    exact mirrors_step (Rerun.steps_binary (spans_of_walked faithful walked) typed op a b).inside

theorem mirrors_assignExpr {target value : Expr}
    (walked : rerun.known.Walked scope (.assign mark target value)) :
    Mirrors rerun (SameValue rerun) w (expr rerun.known.notes frame (.assign mark target value))
      (expr rerun.image frame ((Expr.assign mark target value).inside rerun.recast)) := by
  have asked := mirrors_task (w := w) rerun (.assign frame mark target.bare value)
    (typeOf?_of_walked faithful walked)
  have plan : ∀ bare, bare = target.bare.inside rerun.recast →
      (run (.assign frame (rerun.recast.mark mark) bare (value.recast rerun.recast)) : Plan Value) =
        run (.assign frame (rerun.recast.mark mark) (target.bare.inside rerun.recast)
          (value.recast rerun.recast)) := by
    rintro _ rfl
    rfl
  rw [show expr rerun.image frame ((Expr.assign mark target value).inside rerun.recast) = _ from
    plan _ target.bare_recast]
  exact asked.mono fun _ _ _ holds => Answer.value.inj holds

theorem mirrors_callExpr {callee : Expr} {given : List Expr}
    (walked : rerun.known.Walked scope (.call mark callee given)) :
    Mirrors rerun (SameValue rerun) w (expr rerun.known.notes frame (.call mark callee given))
      (expr rerun.image frame ((Expr.call mark callee given).inside rerun.recast)) := by
  refine Mirrors.bind (mirrors_part rerun frame callee) ?_
  rintro _ function _ _ rfl
  refine Mirrors.bind (mirrors_parts rerun frame given) ?_
  rintro _ values _ _ rfl
  exact (mirrors_task rerun (.call function values mark.span)
    (spans_of_walked faithful walked)).mono fun _ _ _ holds => Answer.value.inj holds

theorem mirrors_index {owner place : Expr}
    (walked : rerun.known.Walked scope (.index mark owner place)) :
    Mirrors rerun (SameValue rerun) w (expr rerun.known.notes frame (.index mark owner place))
      (expr rerun.image frame ((Expr.index mark owner place).inside rerun.recast)) := by
  refine Mirrors.bind (mirrors_part rerun frame owner) ?_
  rintro _ a _ _ rfl
  refine Mirrors.bind (mirrors_part rerun frame place) ?_
  rintro _ i _ _ rfl
  exact mirrors_step (Rerun.steps_readElement (spans_of_walked faithful walked) a i).inside

theorem mirrors_field {receiver : Expr} {name : String}
    (walked : rerun.known.Walked scope (.field mark receiver name)) :
    Mirrors rerun (SameValue rerun) w (expr rerun.known.notes frame (.field mark receiver name))
      (expr rerun.image frame ((Expr.field mark receiver name).inside rerun.recast)) := by
  refine Mirrors.bind (mirrors_part rerun frame receiver) ?_
  rintro _ value _ _ rfl
  exact mirrors_step (Rerun.steps_readField (spans_of_walked faithful walked) value name).inside

/-- Whether a member that is walked is a method. -/
theorem isMethod_of_walked {receiver : Expr} {name : String}
    (walked : rerun.known.Walked scope (.member mark receiver name)) :
    Eval.isMethod rerun.image mark.id = Eval.isMethod rerun.known.notes mark.id := by
  obtain ⟨expectation, step⟩ := walked.step
  obtain ⟨_, _, decl, _, _, _, _, declared, _⟩ :=
    Rule.member_of_holds (faithful.accepted.rule step rfl)
  have answered : ⟨mark.id, .decl⟩ ∈
      (Step.expr scope expectation (.member mark receiver name)).answers := by
    simp [Step.answers, Step.facts, Step.rules, Expr.finding, Rule.member, Rule.ofScript]
  obtain ⟨other, declaredToo, meets⟩ := faithful.meets step answered declared
  exact Rerun.isMethod_eq meets declared declaredToo

theorem mirrors_member {receiver : Expr} {name : String}
    (walked : rerun.known.Walked scope (.member mark receiver name)) :
    Mirrors rerun (SameValue rerun) w (expr rerun.known.notes frame (.member mark receiver name))
      (expr rerun.image frame ((Expr.member mark receiver name).inside rerun.recast)) := by
  obtain ⟨expectation, step⟩ := walked.step
  obtain ⟨named, _, _, _, receiverTyped, _⟩ :=
    Rule.member_of_holds (faithful.accepted.rule step rfl)
  refine Mirrors.bind (mirrors_expr rerun frame receiver) ?_
  rintro later value _ _ ⟨⟨ty, typed, shape⟩, rfl⟩
  rw [receiverTyped] at typed
  cases typed
  have spans : rerun.spans mark.span (rerun.recast.mark mark).span :=
    spans_of_walked faithful walked
  have sameMethod := isMethod_of_walked faithful walked
  exact mirrors_step (Rerun.steps_readMember spans sameMethod shape name)

/-- An expression is evaluated alike, the parentheses aside that are put around it. -/
theorem mirrors_inside (home : w.scope? frame = some scope) {e : Expr}
    (walked : rerun.known.Walked scope e) :
    Mirrors rerun (SameValue rerun) w (expr rerun.known.notes frame e)
      (expr rerun.image frame (e.inside rerun.recast)) := by
  cases e with
  | symbol mark name => exact mirrors_step (Rerun.steps_symbol faithful walked).inside
  | array mark elements => exact mirrors_array faithful walked
  | paren mark inner => exact mirrors_part rerun frame inner
  | unary mark op operand => exact mirrors_unary faithful walked
  | binary mark op left right => exact mirrors_binary faithful walked
  | assign mark target value => exact mirrors_assignExpr faithful walked
  | call mark callee given => exact mirrors_callExpr faithful walked
  | index mark owner place => exact mirrors_index faithful walked
  | field mark receiver name => exact mirrors_field faithful walked
  | member mark receiver name => exact mirrors_member faithful walked
  | constructor mark name => exact mirrors_step (Rerun.steps_constructor faithful walked).inside
  | create mark name => exact mirrors_step (Rerun.steps_create faithful home walked)
  | _ => exact mirrors_pure rfl

end Forms

/-! ## The tasks of expressions -/

theorem mirrors_exprs (rerun : Rerun) (frame : FrameId) (es : List Expr) :
    Mirrors rerun (fun _ values answer => answer = values.map (Value.recast rerun.recast)) w
      (exprs frame es) (exprs frame (Expr.recastAll rerun.recast es)) := by
  cases es with
  | nil => exact mirrors_pure rfl
  | cons e rest =>
    refine Mirrors.bind (mirrors_part rerun frame e) ?_
    rintro _ value _ _ rfl
    refine Mirrors.bind (mirrors_parts rerun frame rest) ?_
    rintro _ values _ _ rfl
    exact mirrors_pure rfl

theorem mirrors_condition (faithful : rerun.Faithful) {e : Expr}
    (walked : rerun.known.Walked scope e) :
    Mirrors rerun (fun _ truth answer => answer = truth) w (condition frame e)
      (condition frame (e.recast rerun.recast)) := by
  refine Mirrors.bind (mirrors_part rerun frame e) ?_
  rintro _ value _ _ rfl
  rw [Expr.span_recast]
  exact mirrors_step (Rerun.steps_expectBool (spans_of_walked faithful walked) value).inside

/-! ## Assignments -/

section Assignments

variable (faithful : rerun.Faithful) {mark : Mark} {e : Expr}
  (typed : rerun.image.typeOf? mark.id = rerun.known.notes.typeOf? mark.id)

include faithful typed

/-- An assignment to a name. -/
theorem mirrors_assignSymbol {place : Mark} {name : String}
    (walked : rerun.known.Walked scope (.symbol place name)) :
    Mirrors rerun (SameValue rerun) w
      (assign rerun.known.notes frame mark (.symbol place name) e)
      (assign rerun.image frame (rerun.recast.mark mark)
        ((Expr.symbol place name).inside rerun.recast) (e.recast rerun.recast)) := by
  obtain ⟨expectation, step⟩ := walked.step
  obtain ⟨decl, _, _, declared, _⟩ := faithful.accepted.symbol walked
  have answered : ⟨place.id, .decl⟩ ∈
      (Step.expr scope expectation (.symbol place name)).answers := by
    simp [Step.answers, Step.facts, Step.rules, Expr.finding, Rule.symbol, Rule.ofScript]
  obtain ⟨other, declaredToo, meets⟩ := faithful.meets step answered declared
  have spans : rerun.spans place.span (rerun.recast.span place.span) := faithful.spans step
  simp only [Expr.inside, assign, Recast.mark_id, typed, faithful.refers step declared]
  refine Mirrors.bind
    (mirrors_step (Rerun.steps_declNode meets declared declaredToo).inside) ?_
  rintro _ _ _ _ ⟨rfl, rfl⟩
  refine Mirrors.bind (mirrors_part rerun frame e) ?_
  rintro _ value _ _ rfl
  have stored : rerun.Steps
      (Eval.change (·.assign frame name decl.node
        (value.coerce (rerun.known.notes.typeOf? mark.id))))
      (Eval.change (·.assign frame (rerun.recast.bound decl.node name) decl.node
        ((value.recast rerun.recast).coerce (rerun.known.notes.typeOf? mark.id))))
      fun result answer => answer = result := by
    rw [Value.coerce_recast]
    exact Rerun.steps_change fun heap image recasts =>
      recasts.assign faithful.injective frame name decl.node _
  refine Mirrors.bind (mirrors_step stored.inside) ?_
  rintro _ _ result _ rfl
  cases result with
  | ok done => exact mirrors_pure (Value.coerce_recast _ _)
  | error error =>
    exact mirrors_step (Rerun.steps_slotError faithful spans error decl.node name).inside

/-- An assignment to an element of an array. -/
theorem mirrors_assignIndex {place : Mark} {array index : Expr}
    (walked : rerun.known.Walked scope (.index place array index)) :
    Mirrors rerun (SameValue rerun) w
      (assign rerun.known.notes frame mark (.index place array index) e)
      (assign rerun.image frame (rerun.recast.mark mark)
        ((Expr.index place array index).inside rerun.recast) (e.recast rerun.recast)) := by
  have spans : rerun.spans place.span (rerun.recast.span place.span) :=
    spans_of_walked faithful walked
  simp only [Expr.inside, assign, Recast.mark_id, typed]
  refine Mirrors.bind (mirrors_part rerun frame array) ?_
  rintro _ a _ _ rfl
  refine Mirrors.bind (mirrors_part rerun frame index) ?_
  rintro _ i _ _ rfl
  refine Mirrors.bind (mirrors_part rerun frame e) ?_
  rintro _ value _ _ rfl
  rw [Value.coerce_recast]
  refine Mirrors.bind (mirrors_step (Rerun.steps_assignElement spans a i _).inside) ?_
  exact fun _ _ _ _ _ => mirrors_pure rfl

/-- An assignment to a field of a struct. -/
theorem mirrors_assignField {place : Mark} {receiver : Expr} {name : String}
    (walked : rerun.known.Walked scope (.field place receiver name)) :
    Mirrors rerun (SameValue rerun) w
      (assign rerun.known.notes frame mark (.field place receiver name) e)
      (assign rerun.image frame (rerun.recast.mark mark)
        ((Expr.field place receiver name).inside rerun.recast) (e.recast rerun.recast)) := by
  have spans : rerun.spans place.span (rerun.recast.span place.span) :=
    spans_of_walked faithful walked
  simp only [Expr.inside, assign, Recast.mark_id, typed]
  refine Mirrors.bind (mirrors_part rerun frame receiver) ?_
  rintro _ owner _ _ rfl
  refine Mirrors.bind (mirrors_part rerun frame e) ?_
  rintro _ value _ _ rfl
  rw [Value.coerce_recast]
  refine Mirrors.bind (mirrors_step (Rerun.steps_assignField spans owner name _).inside) ?_
  exact fun _ _ _ _ _ => mirrors_pure rfl

/-- An assignment to an attribute of an instance. -/
theorem mirrors_assignMember {place : Mark} {receiver : Expr} {name : String}
    (walked : rerun.known.Walked scope (.member place receiver name)) :
    Mirrors rerun (SameValue rerun) w
      (assign rerun.known.notes frame mark (.member place receiver name) e)
      (assign rerun.image frame (rerun.recast.mark mark)
        ((Expr.member place receiver name).inside rerun.recast) (e.recast rerun.recast)) := by
  have spans : rerun.spans place.span (rerun.recast.span place.span) :=
    spans_of_walked faithful walked
  obtain ⟨expectation, step⟩ := walked.step
  obtain ⟨named, _, _, _, receiverTyped, _⟩ :=
    Rule.member_of_holds (faithful.accepted.rule step rfl)
  simp only [Expr.inside, assign, Recast.mark_id, typed]
  refine Mirrors.bind (mirrors_expr rerun frame receiver) ?_
  rintro later owner _ _ ⟨⟨ty, ownerTyped, shape⟩, rfl⟩
  rw [receiverTyped] at ownerTyped
  cases ownerTyped
  refine Mirrors.bind (mirrors_part rerun frame e) ?_
  rintro last value _ grown rfl
  rw [Value.coerce_recast]
  refine Mirrors.bind (mirrors_step
    (Rerun.steps_assignMember faithful spans (shape.mono grown) name _)) ?_
  exact fun _ _ _ _ _ => mirrors_pure rfl

/-- An assignment to a target that may be assigned to. -/
theorem mirrors_assign {target : Expr} (walked : rerun.known.Walked scope target)
    (assignable : Rule.Assignable rerun.known.notes target) :
    Mirrors rerun (SameValue rerun) w (assign rerun.known.notes frame mark target e)
      (assign rerun.image frame (rerun.recast.mark mark) (target.inside rerun.recast)
        (e.recast rerun.recast)) := by
  cases target with
  | symbol place name => exact mirrors_assignSymbol faithful typed walked
  | index place array index => exact mirrors_assignIndex faithful typed walked
  | field place receiver name => exact mirrors_assignField faithful typed walked
  | member place receiver name => exact mirrors_assignMember faithful typed walked
  | _ => exact assignable.elim

end Assignments

end Clause

end BoxScript
