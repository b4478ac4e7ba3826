import BoxScript.Proofs.Running.Entering
import BoxScript.Proofs.Running.Visits

/-!
# Values stay

A slot that has a value keeps having one: what a run stores replaces a value by another, and a place
without a value is only made in a frame that is new (`Heap.Keeps`). A step keeps values if it leads
from each heap to one that does, and it is also said of a step of which variables it may complain
that they have no value. There is a rule for each way in which steps and plans are put together, and
one for each primitive step. Of a plan it is said moreover which tasks it asks for.
-/

set_option autoImplicit false

namespace BoxScript

/-- The variable that a run finds to have no value, and where. -/
def Halt.missing? : Halt → Option (String × Span)
  | .failed ⟨.uninitialised name, span⟩ => some (name, span)
  | _ => none

/-! ## Heaps -/

namespace Heap

/-- Whether a later heap has a value in each slot that has one. -/
def Keeps (heap later : Heap) : Prop :=
  ∀ frame name, (heap.getLocal? frame name).isSome = true →
    (later.getLocal? frame name).isSome = true

variable {heap middle later : Heap}

theorem Keeps.refl (heap : Heap) : heap.Keeps heap := fun _ _ => id

theorem Keeps.trans (first : heap.Keeps middle) (second : middle.Keeps later) :
    heap.Keeps later :=
  fun frame name has => second frame name (first frame name has)

/-- Only the frames matter. -/
theorem keeps_of_frames (same : later.frames = heap.frames) : heap.Keeps later := by
  intro frame name has
  rwa [getLocal?, same]

theorem keeps_newFrame (heap : Heap) (frame : Frame) : heap.Keeps (heap.newFrame frame).2 := by
  intro index name has
  obtain ⟨value, found⟩ := Option.isSome_iff_exists.mp has
  obtain ⟨stored, present, _⟩ := Option.bind_eq_some_iff.mp found
  have bound := (Array.getElem?_eq_some_iff.mp present).1
  rwa [getLocal?, newFrame, Array.getElem?_push_lt bound, ← Array.getElem?_eq_getElem bound]

/-- What a slot has after the names of a frame have changed. -/
theorem getLocal?_modifyNames (heap : Heap) (index frame : FrameId) (name : String)
    (change : List (String × Binding) → List (String × Binding)) :
    (heap.modifyNames index change).getLocal? frame name =
      if index = frame then
        heap.frames[frame]?.bind fun stored => ((change stored.names).lookup name).bind (·.value)
      else heap.getLocal? frame name := by
  simp only [getLocal?, modifyNames, Array.getElem?_modify]
  split
  · rw [Option.bind_map]
    rfl
  · rfl

theorem keeps_modifyNames (heap : Heap) (index : FrameId)
    {change : List (String × Binding) → List (String × Binding)}
    (keeps : ∀ names name, ((names.lookup name).bind (·.value)).isSome = true →
      (((change names).lookup name).bind (·.value)).isSome = true) :
    heap.Keeps (heap.modifyNames index change) := by
  intro frame name has
  rw [getLocal?_modifyNames]
  split
  · obtain ⟨value, found⟩ := Option.isSome_iff_exists.mp has
    obtain ⟨stored, present, here⟩ := Option.bind_eq_some_iff.mp found
    rw [present, Option.bind_some]
    exact keeps stored.names name (Option.isSome_iff_exists.mpr ⟨value, here⟩)
  · exact has

theorem keeps_define (heap : Heap) (index : FrameId) (name : String) (decl : Option NodeId)
    (value : Value) : heap.Keeps (heap.define index name decl value) := by
  refine heap.keeps_modifyNames index fun names other has => ?_
  rw [Frame.lookup_bind]
  split
  · rfl
  · exact has

theorem keeps_write (heap : Heap) (index : FrameId) (name : String) (value : Value) :
    heap.Keeps (heap.modifyNames index (Frame.write name value)) := by
  refine heap.keeps_modifyNames index fun names other has => ?_
  rw [Frame.lookup_write]
  split
  · obtain ⟨old, found⟩ := Option.isSome_iff_exists.mp has
    obtain ⟨binding, looked, _⟩ := Option.bind_eq_some_iff.mp found
    rw [looked]
    rfl
  · exact has

/-- A variable that has been declared has a value. -/
theorem isSome_getLocal?_define {heap : Heap} {index : FrameId} {name : String}
    {decl : Option NodeId} {value : Value} (bound : index < heap.frames.size) :
    ((heap.define index name decl value).getLocal? index name).isSome = true := by
  rw [define, getLocal?_modifyNames, if_pos rfl, Array.getElem?_eq_getElem bound,
    Option.bind_some, Frame.lookup_bind, if_pos rfl]
  rfl

theorem keeps_default (heap : Heap) (ty : Ty) : heap.Keeps (heap.default ty).2 := by
  cases ty <;> exact keeps_of_frames rfl

theorem keeps_defaults (heap : Heap) (attributes : List Attribute)
    (names : List (String × Binding)) : heap.Keeps (heap.defaults attributes names).2 := by
  induction attributes generalizing heap names with
  | nil => exact .refl heap
  | cons attr rest ih => exact (heap.keeps_default attr.type).trans (ih _ _)

theorem keeps_newInstance (heap : Heap) (cls : BoxClass) : heap.Keeps (heap.newInstance cls).2 :=
  (heap.keeps_defaults cls.attributes []).trans (keeps_newFrame _ _)

theorem keeps_assignLocal (heap : Heap) (frame : FrameId) (name : String) (value : Value) :
    heap.Keeps (heap.assignLocal frame name value).2 := by
  unfold assignLocal
  split
  · exact .refl heap
  · exact heap.keeps_write frame name value

theorem keeps_assign (heap : Heap) (frame : FrameId) (name : String) (decl : Option NodeId)
    (value : Value) : heap.Keeps (heap.assign frame name decl value).2 := by
  rw [assign_eq]
  split
  · exact .refl heap
  · rename_i home _
    have keeps := heap.keeps_assignLocal home name value
    split <;> simp_all

end Heap

/-! ## Steps -/

namespace Eval

variable {α β : Type} {blames : String → Span → Prop}

/-- A step that keeps values, and complains only of certain variables. -/
def Keeps (blames : String → Span → Prop) (step : Eval α) : Prop :=
  ∀ machine, match step machine with
    | .ok _ after => machine.heap.Keeps after.heap
    | .error halt _ => ∀ name span, halt.missing? = some (name, span) → blames name span

theorem keeps_pure (result : α) : Keeps blames (pure result : Eval α) :=
  fun machine => .refl machine.heap

theorem keeps_bind {step : Eval β} {next : β → Eval α} (first : Keeps blames step)
    (second : ∀ result, Keeps blames (next result)) : Keeps blames (step >>= next) := by
  intro machine
  have kept := first machine
  change match EStateM.bind step next machine with
    | .ok _ after => machine.heap.Keeps after.heap
    | .error halt _ => ∀ name span, halt.missing? = some (name, span) → blames name span
  unfold EStateM.bind
  cases ran : step machine with
  | error halt middle =>
    rw [ran] at kept
    exact kept
  | ok result middle =>
    rw [ran] at kept
    have keptToo := second result middle
    dsimp only
    cases ranToo : next result middle with
    | error halt after =>
      rw [ranToo] at keptToo
      exact keptToo
    | ok last after =>
      rw [ranToo] at keptToo
      exact kept.trans keptToo

theorem keeps_inspect (question : Heap → α) : Keeps blames (inspect question) :=
  fun machine => .refl machine.heap

theorem keeps_change {step : Heap → α × Heap} (keeps : ∀ heap : Heap, heap.Keeps (step heap).2) :
    Keeps blames (change step) :=
  fun machine => keeps machine.heap

theorem keeps_update {step : Heap → Heap} (keeps : ∀ heap : Heap, heap.Keeps (step heap)) :
    Keeps blames (update step) :=
  fun machine => keeps machine.heap

theorem keeps_fail {cause : RuntimeError.Cause} {span : Span}
    (blamed : ∀ name, cause = .uninitialised name → blames name span) :
    Keeps blames (fail cause span : Eval α) := by
  rintro machine name place missing
  cases cause <;> cases missing
  exact blamed name rfl

theorem keeps_fault (reason : Fault) (span : Span) : Keeps blames (fault reason span : Eval α) :=
  keeps_fail (by simp)

theorem keeps_lift {result : Except RuntimeError.Cause α} {span : Span}
    (present : ∀ name, result ≠ .error (.uninitialised name)) :
    Keeps blames (lift result span) := by
  cases result with
  | ok value => exact keeps_pure value
  | error cause => exact keeps_fail fun name same => absurd (congrArg _ same) (present name)

theorem keeps_textOf (value : Value) : Keeps blames (textOf value) := by
  refine keeps_bind (keeps_inspect _) fun text => ?_
  cases text with
  | some text => exact keeps_pure text
  | none =>
    rintro machine name span ⟨⟩

theorem keeps_write (piece : String) (span : Span) : Keeps blames (write piece span) := by
  refine keeps_bind (fun machine => .refl machine.heap) fun taken => ?_
  cases taken with
  | true => exact keeps_pure ()
  | false => exact keeps_fault _ span

theorem keeps_writeLine (line : String) (span : Span) : Keeps blames (writeLine line span) :=
  keeps_bind (keeps_write line span) fun _ => keeps_write "\n" span

end Eval

/-! ## Plans -/

/-- An evaluator whose evaluations keep values. -/
def Evaluator.Keeps (evaluator : Evaluator) : Prop :=
  ∀ task machine result after, evaluator task machine = .ok result after →
    machine.heap.Keeps after.heap

namespace Plan

variable {α β : Type} {allows : Task → Prop} {blames : String → Span → Prop}

/-- A plan whose own steps keep values and complain only of certain variables, and which asks only
for certain tasks. -/
def Keeps (allows : Task → Prop) (blames : String → Span → Prop) : Plan α → Prop
  | done _ => True
  | act step next => Eval.Keeps blames step ∧ ∀ result, (next result).Keeps allows blames
  | ask task next => allows task ∧ ∀ result, (next result).Keeps allows blames

/-! ### Putting plans together -/

theorem keeps_pure (result : α) : (pure result : Plan α).Keeps allows blames := trivial

theorem keeps_bind {plan : Plan β} {next : β → Plan α} (first : plan.Keeps allows blames)
    (second : ∀ result, (next result).Keeps allows blames) :
    (plan >>= next).Keeps allows blames := by
  induction plan with
  | done result => exact second result
  | act step rest ih => exact ⟨first.1, fun result => ih result (first.2 result)⟩
  | ask task rest ih => exact ⟨first.1, fun result => ih result (first.2 result)⟩

theorem keeps_step {step : Eval α} (keeps : Eval.Keeps blames step) :
    (liftM step : Plan α).Keeps allows blames :=
  ⟨keeps, fun _ => trivial⟩

theorem keeps_run {task : Task} (allowed : allows task) : (run task).Keeps allows blames :=
  ⟨allowed, fun _ => trivial⟩

/-! ### Following plans -/

variable {plan : Plan α} {evaluator : Evaluator} {machine after : Machine}

theorem Keeps.follow (keeps : plan.Keeps allows blames) (kept : evaluator.Keeps) {result : α}
    (ran : plan.follow evaluator machine = .ok result after) : machine.heap.Keeps after.heap := by
  induction plan generalizing machine with
  | done result =>
    cases ran
    exact .refl _
  | act step next ih =>
    have first := keeps.1 machine
    change EStateM.bind step _ machine = _ at ran
    simp only [EStateM.bind] at ran
    split at ran
    · rename_i middle between stepped
      rw [stepped] at first
      exact first.trans (ih middle (keeps.2 middle) ran)
    · cases ran
  | ask task next ih =>
    change EStateM.bind (evaluator task) _ machine = _ at ran
    simp only [EStateM.bind] at ran
    split at ran
    · rename_i middle between evaluated
      exact (kept task machine middle between evaluated).trans (ih middle (keeps.2 middle) ran)
    · cases ran

/-- The tasks that a plan asks for, and what has a value by then. -/
theorem Keeps.asked (keeps : plan.Keeps allows blames) (kept : evaluator.Keeps) {visit : Visit}
    (asked : visit ∈ plan.asked evaluator machine) :
    allows visit.task ∧ machine.heap.Keeps visit.machine.heap := by
  induction plan generalizing machine with
  | done result => cases asked
  | act step next ih =>
    have first := keeps.1 machine
    simp only [Plan.asked] at asked
    split at asked
    · rename_i middle between stepped
      rw [stepped] at first
      obtain ⟨allowed, second⟩ := ih middle (keeps.2 middle) asked
      exact ⟨allowed, first.trans second⟩
    · cases asked
  | ask task next ih =>
    simp only [Plan.asked] at asked
    rcases List.mem_cons.mp asked with rfl | asked
    · exact ⟨keeps.1, .refl _⟩
    · split at asked
      · rename_i middle between evaluated
        obtain ⟨allowed, second⟩ := ih middle (keeps.2 middle) asked
        exact ⟨allowed, (kept task machine middle between evaluated).trans second⟩
      · cases asked

/-- What a plan asks for that begins with a task. -/
theorem asked_run_bind {task : Task} {next : task.Result → Plan α} {visit : Visit}
    (asked : visit ∈ (run task >>= next).asked evaluator machine) :
    visit = ⟨task, machine⟩ ∨ ∃ result after, evaluator task machine = .ok result after ∧
      visit ∈ (next result).asked evaluator after := by
  change visit ∈ (ask task next).asked evaluator machine at asked
  rw [Plan.asked] at asked
  rcases List.mem_cons.mp asked with here | later
  · exact .inl here
  · split at later
    · exact .inr ⟨_, _, ‹_›, later⟩
    · cases later

/-- What a plan asks for that begins with a step on the machine. -/
theorem asked_step_bind {step : Eval β} {next : β → Plan α} {visit : Visit}
    (asked : visit ∈ (liftM step >>= next).asked evaluator machine) :
    ∃ result after, step machine = .ok result after ∧
      visit ∈ (next result).asked evaluator after := by
  change visit ∈ (act step next).asked evaluator machine at asked
  rw [Plan.asked] at asked
  split at asked
  · exact ⟨_, _, ‹_›, asked⟩
  · cases asked

/-- A step on the machine asks for nothing. -/
theorem asked_step (step : Eval α) : (liftM step : Plan α).asked evaluator machine = [] := by
  change (act step done).asked evaluator machine = []
  rw [Plan.asked]
  split <;> rfl

theorem asked_run {task : Task} {visit : Visit}
    (asked : visit ∈ (run task).asked evaluator machine) : visit = ⟨task, machine⟩ := by
  rw [asked_run_eq] at asked
  exact List.mem_singleton.mp asked

/-- Where a complaint of a variable comes from that ends a plan: one of its own steps, or one of the
tasks that it asks for. -/
theorem Keeps.missing (keeps : plan.Keeps allows blames) {halt : Halt}
    (ended : plan.follow evaluator machine = .error halt after) {name : String} {span : Span}
    (missing : halt.missing? = some (name, span)) :
    blames name span ∨ ∃ visit ∈ plan.asked evaluator machine,
      evaluator visit.task visit.machine = .error halt after := by
  induction plan generalizing machine with
  | done result => cases ended
  | act step next ih =>
    have first := keeps.1 machine
    change EStateM.bind step _ machine = _ at ended
    simp only [EStateM.bind] at ended
    simp only [Plan.asked]
    split at ended
    · rename_i middle between stepped
      rw [stepped]
      exact ih middle (keeps.2 middle) ended
    · rename_i stop between stepped
      cases ended
      rw [stepped] at first
      exact .inl (first name span missing)
  | ask task next ih =>
    change EStateM.bind (evaluator task) _ machine = _ at ended
    simp only [EStateM.bind] at ended
    simp only [Plan.asked]
    split at ended
    · rename_i middle between evaluated
      rw [evaluated]
      rcases ih middle (keeps.2 middle) ended with blamed | ⟨visit, asked, same⟩
      · exact .inl blamed
      · exact .inr ⟨visit, List.mem_cons_of_mem _ asked, same⟩
    · rename_i stop between evaluated
      cases ended
      exact .inr ⟨⟨task, machine⟩, List.mem_cons_self, evaluated⟩

end Plan

end BoxScript
