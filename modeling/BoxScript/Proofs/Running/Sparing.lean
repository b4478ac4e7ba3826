import BoxScript.Proofs.Running.Retention

/-!
# What evaluation leaves alone

A run changes what frames and rows hold, but not what they are. A later machine has all frames and
rows of an earlier one: the rows with as many values, the frames inside the same frames, and the
instances of boxes with the same class and the same attributes. Its output goes on where that of the
earlier one ended (`Machine.Spares`).

Most steps spare every machine (`Eval.Sparing`). The exception is the binding of a name, which would
give an instance one more attribute. So names are bound in frames on the ground only, which are not
instances (`Heap.Grounds`). Since frames stay what they are, a frame stays on the ground, and a plan
can be followed from any later machine (`Plan.Sparing`).
-/

set_option autoImplicit false

namespace BoxScript

/-! ## Frames -/

namespace Frame

/-- The names that a frame binds, each with the declaration it is bound for. Those of an instance
are its attributes. -/
def attributes (names : List (String × Binding)) : List (String × Option NodeId) :=
  names.map fun entry => (entry.1, entry.2.decl)

/-- What stays of a frame: the frame around it, and, if it is an instance, its attributes. -/
structure Spares (frame image : Frame) : Prop where
  parent : image.parent = frame.parent
  boxClass : image.boxClass = frame.boxClass
  attributes : frame.boxClass ≠ none → attributes image.names = attributes frame.names

theorem Spares.refl (frame : Frame) : frame.Spares frame := ⟨rfl, rfl, fun _ => rfl⟩

theorem Spares.trans {frame image last : Frame} (first : frame.Spares image)
    (second : image.Spares last) : frame.Spares last where
  parent := second.parent.trans first.parent
  boxClass := second.boxClass.trans first.boxClass
  attributes := fun isInstance =>
    (second.attributes (first.boxClass ▸ isInstance)).trans (first.attributes isInstance)

/-- A new value changes no name. -/
theorem attributes_write (name : String) (value : Value) (names : List (String × Binding)) :
    attributes (write name value names) = attributes names := by
  induction names with
  | nil => rfl
  | cons entry rest ih =>
    obtain ⟨other, old⟩ := entry
    rw [write]
    split
    · rename_i same
      subst same
      rfl
    · exact congrArg ((other, old.decl) :: ·) ih

end Frame

/-! ## Heaps -/

namespace Heap

/-- What stays of a heap: its rows with as many values as they have, and its frames. -/
structure Spares (heap later : Heap) : Prop where
  rows : ∀ (index : RowId) (values : Array Value), heap.rows[index]? = some values →
    ∃ image, later.rows[index]? = some image ∧ image.size = values.size
  frames : ∀ (index : FrameId) (frame : Frame), heap.frames[index]? = some frame →
    ∃ image, later.frames[index]? = some image ∧ frame.Spares image

/-- Whether a frame is there and is not an instance of a box. -/
def Grounds (heap : Heap) (index : FrameId) : Prop :=
  ∃ frame, heap.frames[index]? = some frame ∧ frame.boxClass = none

variable {heap later last : Heap} {index : FrameId}

theorem Spares.refl (heap : Heap) : heap.Spares heap where
  rows := fun _ values here => ⟨values, here, rfl⟩
  frames := fun _ frame here => ⟨frame, here, .refl frame⟩

theorem Spares.trans (first : heap.Spares later) (second : later.Spares last) :
    heap.Spares last where
  rows := by
    intro index values here
    obtain ⟨image, there, size⟩ := first.rows index values here
    obtain ⟨final, present, sizeToo⟩ := second.rows index image there
    exact ⟨final, present, sizeToo.trans size⟩
  frames := by
    intro index frame here
    obtain ⟨image, there, spares⟩ := first.frames index frame here
    obtain ⟨final, present, sparesToo⟩ := second.frames index image there
    exact ⟨final, present, spares.trans sparesToo⟩

theorem Grounds.mono (grounds : heap.Grounds index) (spares : heap.Spares later) :
    later.Grounds index := by
  obtain ⟨frame, here, plain⟩ := grounds
  obtain ⟨image, there, same⟩ := spares.frames index frame here
  exact ⟨image, there, same.boxClass.trans plain⟩

/-! ### Making things -/

/-- Only the frames and rows matter. -/
theorem spares_of_same (frames : later.frames = heap.frames) (rows : later.rows = heap.rows) :
    heap.Spares later where
  rows := fun _ values here => ⟨values, rows ▸ here, rfl⟩
  frames := fun _ frame here => ⟨frame, frames ▸ here, .refl frame⟩

theorem spares_newFrame (heap : Heap) (frame : Frame) : heap.Spares (heap.newFrame frame).2 where
  rows := fun _ values here => ⟨values, here, rfl⟩
  frames := by
    intro index old here
    have bound := (Array.getElem?_eq_some_iff.mp here).1
    refine ⟨old, ?_, .refl old⟩
    rw [newFrame, Array.getElem?_push_lt bound, ← Array.getElem?_eq_getElem bound, here]

theorem grounds_newFrame (heap : Heap) {frame : Frame} (plain : frame.boxClass = none) :
    (heap.newFrame frame).2.Grounds heap.frames.size :=
  ⟨frame, Array.getElem?_push_size, plain⟩

theorem spares_newRow (heap : Heap) (values : Array Value) :
    heap.Spares (heap.newRow values).2 where
  rows := by
    intro index old here
    have bound := (Array.getElem?_eq_some_iff.mp here).1
    refine ⟨old, ?_, rfl⟩
    rw [newRow, Array.getElem?_push_lt bound, ← Array.getElem?_eq_getElem bound, here]
  frames := fun _ frame here => ⟨frame, here, .refl frame⟩

theorem spares_default (heap : Heap) (ty : Ty) : heap.Spares (heap.default ty).2 := by
  cases ty with
  | array component => exact heap.spares_newRow #[]
  | _ => exact .refl heap

theorem spares_defaults (heap : Heap) (attributes : List Attribute)
    (names : List (String × Binding)) : heap.Spares (heap.defaults attributes names).2 := by
  induction attributes generalizing heap names with
  | nil => exact .refl heap
  | cons attr rest ih => exact (heap.spares_default attr.type).trans (ih _ _)

theorem spares_newInstance (heap : Heap) (cls : BoxClass) : heap.Spares (heap.newInstance cls).2 :=
  (heap.spares_defaults cls.attributes []).trans (spares_newFrame _ _)

/-! ### Changing what is there -/

/-- The names of a frame may change if the frame keeps its attributes, or is no instance. -/
theorem spares_modifyNames {change : List (String × Binding) → List (String × Binding)}
    (keeps : ∀ frame, heap.frames[index]? = some frame → frame.boxClass ≠ none →
      Frame.attributes (change frame.names) = Frame.attributes frame.names) :
    heap.Spares (heap.modifyNames index change) where
  rows := fun _ values here => ⟨values, here, rfl⟩
  frames := by
    intro place frame here
    rw [modifyNames, Array.getElem?_modify]
    by_cases same : index = place
    · subst same
      rw [if_pos rfl, here]
      exact ⟨_, rfl, rfl, rfl, keeps frame here⟩
    · rw [if_neg same]
      exact ⟨frame, here, .refl frame⟩

/-- Any name may be bound in a frame on the ground. -/
theorem Grounds.spares_names (grounds : heap.Grounds index)
    (change : List (String × Binding) → List (String × Binding)) :
    heap.Spares (heap.modifyNames index change) := by
  refine spares_modifyNames fun frame here isInstance => ?_
  obtain ⟨other, there, plain⟩ := grounds
  cases here.symm.trans there
  exact absurd plain isInstance

theorem spares_write (heap : Heap) (index : FrameId) (name : String) (value : Value) :
    heap.Spares (heap.modifyNames index (Frame.write name value)) :=
  spares_modifyNames fun frame _ _ => Frame.attributes_write name value frame.names

theorem spares_assignLocal (heap : Heap) (frame : FrameId) (name : String) (value : Value) :
    heap.Spares (heap.assignLocal frame name value).2 := by
  unfold assignLocal
  split
  · exact .refl heap
  · exact heap.spares_write frame name value

theorem spares_assign (heap : Heap) (frame : FrameId) (name : String) (decl : Option NodeId)
    (value : Value) : heap.Spares (heap.assign frame name decl value).2 := by
  rw [assign_eq]
  split
  · exact .refl heap
  · rename_i home _
    have spares := heap.spares_assignLocal home name value
    split <;> simp_all

theorem spares_setItem (heap : Heap) (row : RowId) (place : Nat) (value : Value) :
    heap.Spares (heap.setItem row place value) where
  rows := by
    intro index values here
    rw [setItem, Array.getElem?_modify, here]
    split
    · exact ⟨_, rfl, Array.size_setIfInBounds ..⟩
    · exact ⟨values, rfl, rfl⟩
  frames := fun _ frame here => ⟨frame, here, .refl frame⟩

end Heap

/-! ## Machines -/

/-- What stays of a machine: what stays of its heap, and its output as the beginning of the later
one. -/
structure Machine.Spares (machine later : Machine) : Prop
    extends machine.heap.Spares later.heap where
  output : machine.output.text.toList <+: later.output.text.toList
  limit : later.output.limit = machine.output.limit

namespace Machine

variable {machine later last : Machine} {heap : Heap}

theorem Spares.refl (machine : Machine) : machine.Spares machine :=
  ⟨.refl machine.heap, List.prefix_refl _, rfl⟩

theorem Spares.trans (first : machine.Spares later) (second : later.Spares last) :
    machine.Spares last :=
  ⟨first.toSpares.trans second.toSpares, first.output.trans second.output,
    second.limit.trans first.limit⟩

/-- A step on the heap leaves the output alone. -/
theorem spares_of_heap (spares : machine.heap.Spares heap) :
    machine.Spares { machine with heap := heap } :=
  ⟨spares, List.prefix_refl _, rfl⟩

end Machine

/-- What a sink holds stays in front of what is written. -/
theorem Sink.write_spares (sink : Sink) (piece : String) :
    sink.text.toList <+: (sink.write piece).2.text.toList ∧
      (sink.write piece).2.limit = sink.limit := by
  unfold write
  split
  · exact ⟨List.prefix_refl _, rfl⟩
  · split
    · exact ⟨List.prefix_refl _, rfl⟩
    · refine ⟨?_, rfl⟩
      rw [String.toList_append]
      exact List.prefix_append _ _

/-! ## Steps -/

namespace Eval

variable {α β : Type} {machine : Machine}

/-- The machine that a step leaves, however it ends. -/
def left (step : Eval α) (machine : Machine) : Machine :=
  match step machine with
  | .ok _ after | .error _ after => after

/-- A step that spares every machine. -/
def Sparing (step : Eval α) : Prop := ∀ machine : Machine, machine.Spares (step.left machine)

theorem sparing_pure (result : α) : Sparing (pure result : Eval α) := Machine.Spares.refl

/-- What is left after two steps is left by the first one, or by the second one after it. -/
theorem spares_bind {step : Eval β} {next : β → Eval α} (first : machine.Spares (step.left machine))
    (second : ∀ result after, step machine = .ok result after →
      after.Spares ((next result).left after)) :
    machine.Spares ((step >>= next).left machine) := by
  change machine.Spares (left (EStateM.bind step next) machine)
  unfold left EStateM.bind
  unfold left at first
  cases ran : step machine with
  | error halt after =>
    rw [ran] at first
    exact first
  | ok result after =>
    rw [ran] at first
    exact first.trans (second result after ran)

/-- What is left after a first step is spared by the second one. -/
theorem spares_rest {step : Eval β} {next : β → Eval α}
    (rest : ∀ result after, step machine = .ok result after →
      after.Spares ((next result).left after)) :
    (step.left machine).Spares ((step >>= next).left machine) := by
  change (step.left machine).Spares (Eval.left (EStateM.bind step next) machine)
  unfold left EStateM.bind
  cases ran : step machine with
  | error halt after => exact .refl after
  | ok result after => exact rest result after ran

theorem sparing_bind {step : Eval β} {next : β → Eval α} (first : Sparing step)
    (second : ∀ result, Sparing (next result)) : Sparing (step >>= next) :=
  fun machine => spares_bind (first machine) fun result after _ => second result after

theorem sparing_inspect (question : Heap → α) : Sparing (inspect question) := Machine.Spares.refl

theorem sparing_change {step : Heap → α × Heap}
    (spares : ∀ heap : Heap, heap.Spares (step heap).2) : Sparing (change step) :=
  fun machine => Machine.spares_of_heap (spares machine.heap)

theorem sparing_update {step : Heap → Heap} (spares : ∀ heap : Heap, heap.Spares (step heap)) :
    Sparing (update step) :=
  fun machine => Machine.spares_of_heap (spares machine.heap)

theorem sparing_fail (cause : RuntimeError.Cause) (span : Span) :
    Sparing (fail cause span : Eval α) :=
  Machine.Spares.refl

theorem sparing_fault (reason : Fault) (span : Span) : Sparing (fault reason span : Eval α) :=
  sparing_fail _ span

theorem sparing_lift (result : Except RuntimeError.Cause α) (span : Span) :
    Sparing (lift result span) := by
  cases result with
  | ok value => exact sparing_pure value
  | error cause => exact sparing_fail cause span

theorem sparing_textOf (value : Value) : Sparing (textOf value) := by
  refine sparing_bind (sparing_inspect _) fun text => ?_
  cases text with
  | some text => exact sparing_pure text
  | none => exact Machine.Spares.refl

/-- Whether the output takes a text or refuses it, what it held before stays. -/
theorem sparing_write (piece : String) (span : Span) : Sparing (write piece span) := by
  refine sparing_bind (fun machine => ?_) fun taken => ?_
  · obtain ⟨output, limit⟩ := machine.output.write_spares piece
    exact ⟨.refl machine.heap, output, limit⟩
  · cases taken with
    | true => exact sparing_pure ()
    | false => exact sparing_fault _ span

theorem sparing_writeLine (line : String) (span : Span) : Sparing (writeLine line span) :=
  sparing_bind (sparing_write line span) fun _ => sparing_write "\n" span

end Eval

/-! ## Plans -/

namespace Task

/-- The frame that a task is in. A call has none. -/
def frame? (task : Task) : Option FrameId := task.site?.map Site.frame

/-- Whether a task is in a frame on the ground, if it is in one. -/
def Grounded (heap : Heap) (task : Task) : Prop :=
  ∀ frame, task.frame? = some frame → heap.Grounds frame

theorem Grounded.mono {task : Task} {heap later : Heap} (grounded : task.Grounded heap)
    (spares : heap.Spares later) : task.Grounded later :=
  fun frame is => (grounded frame is).mono spares

end Task

/-- An evaluator that spares machines, if tasks are in frames on the ground. -/
def Evaluator.Sparing (evaluator : Evaluator) : Prop :=
  ∀ (task : Task) (machine : Machine), task.Grounded machine.heap →
    machine.Spares (Eval.left (evaluator task) machine)

namespace Plan

variable {α β : Type} {plan : Plan α} {base machine : Machine}

/-- A plan that spares each machine that has spared some machine before. It asks for tasks in frames
on the ground only. -/
def Sparing : Plan α → Machine → Prop
  | done _, _ => True
  | act step next, base => ∀ machine, base.Spares machine →
    machine.Spares (Eval.left step machine) ∧
      ∀ result after, step machine = .ok result after → (next result).Sparing after
  | ask task next, base => task.Grounded base.heap ∧ ∀ result, (next result).Sparing base

theorem Sparing.mono (sparing : plan.Sparing base) (spares : base.Spares machine) :
    plan.Sparing machine := by
  induction plan with
  | done result => trivial
  | act step next ih => exact fun later sparesToo => sparing later (spares.trans sparesToo)
  | ask task next ih =>
    exact ⟨sparing.1.mono spares.toSpares, fun result => ih result (sparing.2 result)⟩

/-! ### Putting plans together -/

theorem sparing_pure (result : α) : (pure result : Plan α).Sparing base := trivial

theorem sparing_bind {plan : Plan β} {next : β → Plan α} (first : plan.Sparing base)
    (second : ∀ result, (next result).Sparing base) : (plan >>= next).Sparing base := by
  induction plan generalizing base with
  | done result => exact second result
  | act step rest ih =>
    intro machine spares
    obtain ⟨here, later⟩ := first machine spares
    refine ⟨here, fun result after ran => ih result (later result after ran) fun last => ?_⟩
    have spared : machine.Spares after := by
      rwa [Eval.left, ran] at here
    exact (second last).mono (spares.trans spared)
  | ask task rest ih => exact ⟨first.1, fun result => ih result (first.2 result) second⟩

theorem sparing_step {step : Eval α} (sparing : Eval.Sparing step) :
    (liftM step : Plan α).Sparing base :=
  fun machine _ => ⟨sparing machine, fun _ _ _ => trivial⟩

theorem sparing_run {task : Task} (grounded : task.Grounded base.heap) :
    (run task).Sparing base :=
  ⟨grounded, fun _ => trivial⟩

/-- A task in a frame on the ground. -/
theorem sparing_inside {task : Task} {frame : FrameId} (is : task.frame? = some frame)
    (grounds : base.heap.Grounds frame) : (run task).Sparing base := by
  refine sparing_run fun other same => ?_
  cases is.symm.trans same
  exact grounds

/-- A task outside of all frames. -/
theorem sparing_call {task : Task} (call : task.frame? = none) : (run task).Sparing base := by
  refine sparing_run fun frame is => ?_
  rw [call] at is
  cases is

/-- What is done in a frame that was just made. -/
theorem sparing_entered {step : Eval FrameId} {next : FrameId → Plan α}
    (enters : ∀ machine, ∃ after, step machine = .ok machine.heap.frames.size after ∧
      machine.Spares after ∧ after.heap.Grounds machine.heap.frames.size)
    (inside : ∀ frame later, later.heap.Grounds frame → (next frame).Sparing later) :
    ((liftM step : Plan FrameId) >>= next).Sparing base := by
  intro machine _
  obtain ⟨after, ran, spares, grounds⟩ := enters machine
  have left : Eval.left step machine = after := by rw [Eval.left, ran]
  refine ⟨left.symm ▸ spares, fun result last ranToo => ?_⟩
  cases ran.symm.trans ranToo
  exact inside _ _ grounds

/-! ### Following plans -/

variable {evaluator : Evaluator}

theorem Sparing.follow (sparing : plan.Sparing base) (spareful : evaluator.Sparing)
    (spares : base.Spares machine) :
    machine.Spares (Eval.left (plan.follow evaluator) machine) := by
  induction plan generalizing base machine with
  | done result => exact .refl machine
  | act step next ih =>
    obtain ⟨here, later⟩ := sparing machine spares
    exact Eval.spares_bind here fun result after ran => ih result (later result after ran) (.refl _)
  | ask task next ih =>
    have here := spareful task machine (sparing.1.mono spares.toSpares)
    refine Eval.spares_bind here fun result after ran => ?_
    rw [Eval.left, ran] at here
    exact ih result (sparing.2 result) (spares.trans here)

/-- The tasks that a plan asks for are in frames on the ground. -/
theorem Sparing.asked (sparing : plan.Sparing base) (spareful : evaluator.Sparing)
    (spares : base.Spares machine) :
    ∀ visit ∈ plan.asked evaluator machine, visit.task.Grounded visit.machine.heap := by
  intro visit asked
  induction plan generalizing base machine with
  | done result => cases asked
  | act step next ih =>
    simp only [Plan.asked] at asked
    split at asked
    · rename_i result after ran
      exact ih result ((sparing machine spares).2 result after ran) (.refl _) asked
    · cases asked
  | ask task next ih =>
    have grounded := sparing.1.mono spares.toSpares
    have here := spareful task machine grounded
    simp only [Plan.asked] at asked
    rcases List.mem_cons.mp asked with rfl | asked
    · exact grounded
    · split at asked
      · rename_i result after ran
        rw [Eval.left, ran] at here
        exact ih result (sparing.2 result) (spares.trans here) asked
      · cases asked

end Plan

end BoxScript
