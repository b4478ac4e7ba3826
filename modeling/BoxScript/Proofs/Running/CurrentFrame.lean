import BoxScript.Proofs.Running.Surroundings

/-!
# The current frame

A task names the frame that it is in. The frame could be part of the state instead. Then calls,
blocks, and bodies that are no blocks would make the frame that they enter the current one, and give
back the one before, however what lies inside ends (`Located.within`). All other tasks would go on
in whatever frame is current. `evaluateIn` evaluates in this way. It does the same as evaluation in
named frames (`evaluateIn_eq`): the frame that a task names is the current one, and the frame that
was current before a task is current after it.

Together with what evaluation spares, this says that nothing around a task is damaged by it: neither
the current frame, nor the output so far, nor the shape of any array, struct or instance, nor the
frame around any frame (`Located.surroundings_stay`).
-/

set_option autoImplicit false
set_option maxRecDepth 100000

namespace BoxScript

/-! ## Being somewhere -/

/-- A machine, and the frame that is current on it. -/
structure Locus where
  machine : Machine
  current : FrameId

/-- A computation that has a current frame. -/
abbrev Located := EStateM Halt Locus

namespace Located

variable {α β : Type}

/-- The current frame. -/
def current : Located FrameId := fun locus => .ok locus.current locus

/-- A step on the machine. -/
def act (step : Eval α) : Located α := fun locus =>
  match step locus.machine with
  | .ok result after => .ok result ⟨after, locus.current⟩
  | .error halt after => .error halt ⟨after, locus.current⟩

/-- Makes a frame the current one for a computation. However that ends, the frame that was current
before is current again. -/
def within (frame : FrameId) (step : Located α) : Located α := fun locus =>
  match step ⟨locus.machine, frame⟩ with
  | .ok result after => .ok result ⟨after.machine, locus.current⟩
  | .error halt after => .error halt ⟨after.machine, locus.current⟩

/-- Where a computation ends, however it does. -/
def left (step : Located α) (locus : Locus) : Locus :=
  match step locus with
  | .ok _ after | .error _ after => after

variable {step : Located α} {original : Eval α} {locus : Locus}

/-- A step on the machine ends in the frame that it began in. -/
theorem left_of_act (acts : step locus = act original locus) :
    step.left locus = ⟨original.left locus.machine, locus.current⟩ := by
  rw [left, acts, act, Eval.left]
  cases original locus.machine <;> rfl

theorem current_bind (next : FrameId → Located α) :
    (current >>= next) locus = next locus.current locus :=
  rfl

/-- What acts inside another frame acts. -/
theorem within_eq {frame : FrameId}
    (acts : step ⟨locus.machine, frame⟩ = act original ⟨locus.machine, frame⟩) :
    within frame step locus = act original locus := by
  rw [within, acts, act, act]
  cases original locus.machine <;> rfl

theorem bind_eq {step : Located β} {original : Eval β} {next : β → Located α} {rest : β → Eval α}
    (first : step locus = act original locus)
    (second : ∀ result machine,
      next result ⟨machine, locus.current⟩ = act (rest result) ⟨machine, locus.current⟩) :
    (step >>= next) locus = act (original >>= rest) locus := by
  change EStateM.bind step next locus = act (EStateM.bind original rest) locus
  simp only [EStateM.bind, first, act]
  cases original locus.machine with
  | error halt after => rfl
  | ok result after => exact second result after

end Located

/-! ## Evaluation in the current frame -/

namespace Task

/-- Whether a task is in a frame, if it is in one at all. -/
def Here (task : Task) (frame : FrameId) : Prop := ∀ home, task.frame? = some home → home = frame

/-- Whether what a task asks for is to be evaluated in a frame that was made for it. -/
def enters : Task → Bool
  | .body _ (.block _) => false
  | .invoke _ _ _ _ | .block _ _ | .body _ _ => true
  | _ => false

/-- Makes the frame of a task the current one for its evaluation. -/
def framed {α : Type} (task : Task) (step : Located α) : Located α :=
  match task.frame? with
  | some frame => Located.within frame step
  | none => step

end Task

/-- Follows a plan, where the current frame stays what it is between the tasks in it. -/
def Plan.followIn {α : Type} (evaluator : (task : Task) → Located task.Result) :
    Plan α → Located α
  | done result => return result
  | act step next => do (next (← Located.act step)).followIn evaluator
  | ask task next => do (next (← evaluator task)).followIn evaluator

/-- What a task comes to in the current frame, whichever frame it names. -/
def clauseIn (notes : Annotations) (current : FrameId) : (task : Task) → Plan task.Result
  | .expr _ e => Clause.expr notes current e
  | .exprs _ es => Clause.exprs current es
  | .condition _ e => Clause.condition current e
  | .assign _ mark target value => Clause.assign notes current mark target value
  | .call callee arguments span => Clause.call callee arguments span
  | .invoke decl outer arguments span => Clause.invoke notes decl outer arguments span
  | .block _ b => Clause.block notes current b
  | .sequence _ body => Clause.sequence current body
  | .stmt _ s => Clause.stmt notes current s
  | .loop _ test inner => Clause.loop current test inner
  | .body _ s => Clause.body notes current s

/-- Evaluates a task in the current frame. -/
def evaluateIn (notes : Annotations) : Nat → (task : Task) → Located task.Result
  | 0, _ => throw .outOfFuel
  | fuel + 1, task => do
    let current ← Located.current
    (clauseIn notes current task).followIn fun inner =>
      if task.enters then inner.framed (evaluateIn notes fuel inner)
      else evaluateIn notes fuel inner

/-- Statements in the current frame, after binding what they declare. -/
def statementsIn (notes : Annotations) (fuel : Nat) (body : List Stmt) : Located Completion := do
  let current ← Located.current
  Located.act (Eval.declareAll notes current body)
  evaluateIn notes fuel (.sequence current body)

/-- Runs a program inside the frame that is current. -/
def programIn (notes : Annotations) (fuel : Nat) (p : Program) : Located Value := do
  let root ← Located.act (Eval.enter notes (← Located.current) p.body)
  return (← Located.within root (evaluateIn notes fuel (.sequence root p.body))).value

/-- Runs statements one at a time in the current frame, and goes on after each, however it ends. -/
def stepsIn (notes : Annotations) (fuel : Nat) : List Stmt → Locus → Locus
  | [], locus => locus
  | s :: rest, locus => stepsIn notes fuel rest ((statementsIn notes fuel [s]).left locus)

/-! ## Tasks are in the current frame -/

/-- A plan does the same in the current frame if the tasks do that it may ask for. -/
theorem Plan.Keeps.followIn_eq {α : Type} {allows : Task → Prop} {blames : String → Span → Prop}
    {plan : Plan α} {evaluatorIn : (task : Task) → Located task.Result} {evaluator : Evaluator}
    {current : FrameId} (keeps : plan.Keeps allows blames)
    (same : ∀ task machine, allows task →
      evaluatorIn task ⟨machine, current⟩ = Located.act (evaluator task) ⟨machine, current⟩)
    (machine : Machine) :
    plan.followIn evaluatorIn ⟨machine, current⟩ =
      Located.act (plan.follow evaluator) ⟨machine, current⟩ := by
  induction plan generalizing machine with
  | done result => rfl
  | act step next ih =>
    exact Located.bind_eq rfl fun result after => ih result (keeps.2 result) after
  | ask task next ih =>
    exact Located.bind_eq (same task machine keeps.1)
      fun result after => ih result (keeps.2 result) after

theorem Plan.Keeps.imp {α : Type} {allows also : Task → Prop} {blames : String → Span → Prop}
    {plan : Plan α} (keeps : plan.Keeps allows blames)
    (wider : ∀ task, allows task → also task) : plan.Keeps also blames := by
  induction plan with
  | done result => trivial
  | act step next ih => exact ⟨keeps.1, fun result => ih result (keeps.2 result)⟩
  | ask task next ih => exact ⟨wider task keeps.1, fun result => ih result (keeps.2 result)⟩

namespace Task

variable {task : Task} {current : FrameId}

theorem here_of_frame (is : task.frame? = some current) : task.Here current :=
  fun _ isToo => Option.some.inj (isToo.symm.trans is)

theorem clauseIn_eq {notes : Annotations} (here : task.Here current) :
    clauseIn notes current task = clause notes task := by
  cases task with
  | call callee arguments span | invoke decl outer arguments span => rfl
  | _ =>
    cases here _ rfl
    rfl

/-- A task that enters no frame asks for tasks in its own frame only. -/
theorem keeps_here (notes : Annotations) (here : task.Here current)
    (stays : task.enters = false) :
    ∃ blames, (clause notes task).Keeps (Task.Here · current) blames := by
  by_cases moves : task.moves = true
  · -- Only statements one after another move without entering a frame.
    cases task with
    | sequence home body =>
      cases here home rfl
      refine ⟨fun _ _ => False, ?_⟩
      cases body with
      | nil => exact Plan.keeps_pure _
      | cons s rest =>
        refine Plan.keeps_bind (Plan.keeps_run (here_of_frame rfl)) fun completion => ?_
        cases completion with
        | returned value => exact Plan.keeps_pure _
        | normal => exact Plan.keeps_run (here_of_frame rfl)
    | body outer s => cases s <;> simp_all [enters, Task.moves]
    | _ => simp_all [enters, Task.moves]
  · refine ⟨task.Blames, (keeps_clause notes task).imp fun inner leads home is => ?_⟩
    obtain ⟨site, isSite, rfl⟩ := Option.map_eq_some_iff.mp is
    obtain ⟨around, isAround, same, _⟩ := leads.resolve_left moves site isSite
    rw [same]
    exact here around.frame (by rw [Task.frame?, isAround, Option.map_some])

end Task

/-- Evaluation in the current frame does what evaluation in the named frames does, and leaves the
current frame alone. -/
theorem evaluateIn_eq (notes : Annotations) (fuel : Nat) {task : Task} {locus : Locus}
    (here : task.Here locus.current) :
    evaluateIn notes fuel task locus = Located.act (evaluate notes fuel task) locus := by
  induction fuel generalizing task locus with
  | zero => rfl
  | succ fuel ih =>
    obtain ⟨machine, current⟩ := locus
    rw [evaluateIn, Located.current_bind, Task.clauseIn_eq here]
    cases enters : task.enters with
    | false =>
      obtain ⟨blames, keeps⟩ := Task.keeps_here notes here enters
      refine keeps.followIn_eq (fun inner machine inside => ?_) machine
      exact ih inside
    | true =>
      refine (keeps_clause notes task).followIn_eq (fun inner machine _ => ?_) machine
      rw [if_pos rfl, Task.framed]
      cases is : inner.frame? with
      | some frame => exact Located.within_eq (ih (Task.here_of_frame is))
      | none => exact ih fun home isToo => absurd (is.symm.trans isToo) (by simp)

theorem statementsIn_eq (notes : Annotations) (fuel : Nat) (body : List Stmt) (locus : Locus) :
    statementsIn notes fuel body locus =
      Located.act (Eval.statements notes fuel locus.current body) locus :=
  Located.bind_eq rfl fun _ _ => evaluateIn_eq notes fuel (Task.here_of_frame rfl)

theorem programIn_eq (notes : Annotations) (fuel : Nat) (p : Program) (locus : Locus) :
    programIn notes fuel p locus =
      Located.act (Eval.programFrom notes fuel locus.current p) locus := by
  rw [programIn, Located.current_bind]
  refine Located.bind_eq rfl fun root machine => Located.bind_eq ?_ fun _ _ => rfl
  exact Located.within_eq (evaluateIn_eq notes fuel (Task.here_of_frame rfl))

/-! ## Surroundings -/

/-- What stays of the thing that a value refers to: the length of an array, the definition and the
number of fields of a struct, and the class and the attributes of an instance of a box. -/
inductive Thing
  | array (length : Nat)
  | struct (cls : StructClass) (fields : Nat)
  | box (cls : BoxClass) (attributes : List (String × Option NodeId))

namespace Heap

/-- The thing that a value refers to. -/
def thing? (heap : Heap) : Value → Option Thing
  | .array row => heap.rows[row]?.map fun values => .array values.size
  | .struct cls row => heap.rows[row]?.map fun values => .struct cls values.size
  | .box index => heap.frames[index]?.bind fun frame =>
    frame.boxClass.map fun cls => .box cls (Frame.attributes frame.names)
  | _ => none

/-- What is around a frame that is there: another frame or nothing. -/
def around? (heap : Heap) (index : FrameId) : Option (Option FrameId) :=
  heap.frames[index]?.map (·.parent)

variable {heap later : Heap}

theorem Spares.thing? (spares : heap.Spares later) {value : Value} {thing : Thing}
    (is : heap.thing? value = some thing) : later.thing? value = some thing := by
  cases value with
  | array row =>
    obtain ⟨values, here, rfl⟩ := Option.map_eq_some_iff.mp is
    obtain ⟨image, there, size⟩ := spares.rows row values here
    rw [Heap.thing?, there, Option.map_some, size]
  | struct cls row =>
    obtain ⟨values, here, rfl⟩ := Option.map_eq_some_iff.mp is
    obtain ⟨image, there, size⟩ := spares.rows row values here
    rw [Heap.thing?, there, Option.map_some, size]
  | box index =>
    obtain ⟨frame, here, inner⟩ := Option.bind_eq_some_iff.mp is
    obtain ⟨cls, isInstance, rfl⟩ := Option.map_eq_some_iff.mp inner
    obtain ⟨image, there, same⟩ := spares.frames index frame here
    have attributes := same.attributes (by simp [isInstance])
    simp [Heap.thing?, there, same.boxClass, isInstance, attributes]
  | _ => cases is

theorem Spares.around? (spares : heap.Spares later) {index : FrameId} {around : Option FrameId}
    (is : heap.around? index = some around) : later.around? index = some around := by
  obtain ⟨frame, here, rfl⟩ := Option.map_eq_some_iff.mp is
  obtain ⟨image, there, same⟩ := spares.frames index frame here
  rw [Heap.around?, there, Option.map_some, same.parent]

end Heap

/-- What stays around a task: the current frame, the output so far, the shape of each thing, and
what is around each frame. -/
structure Locus.Spares (before after : Locus) : Prop where
  current : after.current = before.current
  output : before.machine.output.text.toList <+: after.machine.output.text.toList
  things : ∀ value thing, before.machine.heap.thing? value = some thing →
    after.machine.heap.thing? value = some thing
  around : ∀ index around, before.machine.heap.around? index = some around →
    after.machine.heap.around? index = some around

namespace Located

variable {α : Type} {step : Located α} {original : Eval α} {locus : Locus}

/-- A step on the machine that spares it spares all that is around. -/
theorem spares_of_act (acts : step locus = act original locus)
    (spares : locus.machine.Spares (original.left locus.machine)) :
    locus.Spares (step.left locus) := by
  rw [left_of_act acts]
  exact ⟨rfl, spares.output, fun _ _ => spares.toSpares.thing?,
    fun _ _ => spares.toSpares.around?⟩

end Located

theorem Locus.Spares.refl (locus : Locus) : locus.Spares locus :=
  ⟨rfl, List.prefix_refl _, fun _ _ is => is, fun _ _ is => is⟩

theorem Locus.Spares.trans {before middle after : Locus} (first : before.Spares middle)
    (second : middle.Spares after) : before.Spares after where
  current := second.current.trans first.current
  output := first.output.trans second.output
  things := fun value thing is => second.things value thing (first.things value thing is)
  around := fun index around is => second.around index around (first.around index around is)

/-- Running on after each statement spares what is around, since the current frame stays on the
ground. -/
theorem spares_stepsIn (notes : Annotations) (fuel : Nat) (body : List Stmt) {locus : Locus}
    (grounds : locus.machine.heap.Grounds locus.current) :
    locus.Spares (stepsIn notes fuel body locus) := by
  induction body generalizing locus with
  | nil => exact .refl locus
  | cons s rest ih =>
    have acts := statementsIn_eq notes fuel [s] locus
    have spares := Eval.spares_statements notes fuel grounds [s]
    refine (Located.spares_of_act acts spares).trans (ih ?_)
    rw [Located.left_of_act acts]
    exact grounds.mono spares.toSpares

/-- Evaluation never damages what is around it. It does the same in the current frame as in the
frames that tasks name; and from any machine, however a task in a frame on the ground ends, the
current frame, the output so far, the shape of all things and the frames around frames stay. All
tasks that a program comes by are in such frames. The same holds of whole programs, and of
statements that run one at a time where errors do not end the run. -/
theorem Located.surroundings_stay (program : Program) (notes : Annotations) (fuel : Nat) :
    (∀ (task : Task) (locus : Locus), task.Here locus.current →
      evaluateIn notes fuel task locus = act (evaluate notes fuel task) locus) ∧
    (∀ (task : Task) (locus : Locus), task.Here locus.current →
      task.Grounded locus.machine.heap →
        locus.Spares ((evaluateIn notes fuel task).left locus)) ∧
    (∀ machine, ∀ visit ∈ program.visits notes fuel machine,
      visit.task.Grounded visit.machine.heap) ∧
    (∀ machine, ∃ outer after, Eval.builtinFrame machine = .ok outer after ∧
      programIn notes fuel program ⟨after, outer⟩ =
        act (Eval.program notes fuel program) ⟨machine, outer⟩ ∧
      Locus.Spares ⟨after, outer⟩ ((programIn notes fuel program).left ⟨after, outer⟩)) ∧
    ∀ (body : List Stmt) (locus : Locus), locus.machine.heap.Grounds locus.current →
      locus.Spares (stepsIn notes fuel body locus) := by
  refine ⟨fun task locus => evaluateIn_eq notes fuel, fun task locus here grounded => ?_,
    fun machine => Program.grounded_at_visits, fun machine => ?_,
    fun body locus => spares_stepsIn notes fuel body⟩
  · exact spares_of_act (evaluateIn_eq notes fuel here)
      (sparing_evaluate notes fuel task locus.machine grounded)
  · obtain ⟨outer, after, made⟩ := Eval.exists_builtinFrame machine
    have acts := programIn_eq notes fuel program ⟨after, outer⟩
    refine ⟨outer, after, made, ?_, ?_⟩
    · rw [acts, act, act, Eval.program_eq, Eval.bind_ok made]
    · exact spares_of_act acts (Eval.sparing_programFrom notes fuel outer program after)

/-- Whether an expression is a call that divides by zero. -/
def failsInCall : Expr → EStateM.Result Halt Machine Value → Bool
  | .call _ _ _, .error (.failed ⟨.divisionByZero, _⟩) _ => true
  | _, _ => false

/-- An error that leaves a call inside another one. -/
theorem Located.surroundings_stay_of_error :
    ∃ program notes frame e machine span after,
      checkSource "main.sigh" "fun g(): Int \x7b return 1 / 0 \x7d
fun f(): Int \x7b print(\"a\") return g() \x7d
f()".toList = .ok (program, notes) ∧
      ⟨.expr frame e, machine⟩ ∈ program.visits notes 40 (.fresh .unlimited) ∧
      evaluate notes 40 (.expr frame e) machine = .error (.failed ⟨.divisionByZero, span⟩) after ∧
      evaluateIn notes 40 (.expr frame e) ⟨machine, frame⟩ =
        .error (.failed ⟨.divisionByZero, span⟩) ⟨after, frame⟩ ∧
      Locus.Spares ⟨machine, frame⟩ ⟨after, frame⟩ := by
  have passed : comesBy "main.sigh" "fun g(): Int \x7b return 1 / 0 \x7d
fun f(): Int \x7b print(\"a\") return g() \x7d
f()".toList 40 (fun notes frame e machine =>
      failsInCall e (evaluate notes 40 (.expr frame e) machine)) = true := by
    decide +kernel
  obtain ⟨program, notes, frame, e, machine, checked, visited, fails⟩ := visited_of_comesBy passed
  obtain ⟨span, after, ended⟩ : ∃ span after, evaluate notes 40 (.expr frame e) machine =
      .error (.failed ⟨.divisionByZero, span⟩) after := by
    unfold failsInCall at fails
    split at fails
    · exact ⟨_, _, ‹_›⟩
    · cases fails
  obtain ⟨acts, spares, grounded, _⟩ := surroundings_stay program notes 40
  have here : Task.Here (.expr frame e) frame := Task.here_of_frame rfl
  have goes := acts (.expr frame e) ⟨machine, frame⟩ here
  rw [act, ended] at goes
  have stays := spares (.expr frame e) ⟨machine, frame⟩ here
    (grounded _ ⟨.expr frame e, machine⟩ visited)
  rw [left, goes] at stays
  exact ⟨program, notes, frame, e, machine, span, after, checked, visited, ended, goes, stays⟩

end BoxScript
