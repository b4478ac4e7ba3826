import BoxScript.Proofs.Recasting.Heaps
import BoxScript.Proofs.Recasting.Walk
import BoxScript.Proofs.Running.Expectation
import BoxScript.Proofs.Running.Making

/-!
# Steps of two runs

The run of an accepted program is compared with the run of its tree cast anew, under annotations of
its own. The second run need not take the same fuel as the first one: parentheses and braces that
are added cost some. So the runs are compared at a pace, which says how the fuels of both go with
each other, and which of them may want for fuel while the other one goes on (`Pace.goes`).

Two steps mirror one another if on machines that go with each other they end alike, with machines
that go with each other (`Rerun.Steps`). Some steps do so on heaps that conform to a world only
(`Rerun.StepsIn`).
-/

set_option autoImplicit false

namespace BoxScript

/-! ## Paces -/

/-- How two runs are compared: with the same fuel, or with fuel in plenty for the one or the other
of them. -/
inductive Pace
  | even
  | ahead
  | behind
  deriving DecidableEq

/-- The fuels that go with each other. What is evaluated inside one task of the first run lies
inside two tasks of the second run at most. -/
def Pace.goes : Pace → Nat → Nat → Prop
  | even, fuel, other => other = fuel
  | ahead, fuel, other => 2 * fuel ≤ other
  | behind, fuel, other => other ≤ fuel

/-- A machine, and the one for the tree cast anew. -/
structure Machine.Recasts (r : Recast) (machine image : Machine) : Prop where
  heap : machine.heap.Recasts r image.heap
  output : image.output = machine.output

/-! ## Runs that are compared -/

/-- Two runs that are compared: an accepted program, how its tree is cast anew, the annotations of
the second run, the places that go with each other, whether it does not matter which names errors
mention, and the pace. -/
structure Rerun where
  known : Analysis
  recast : Recast
  image : Annotations
  spans : Span → Span → Prop
  lenient : Prop
  pace : Pace

/-- Declarations that are made by the same node. -/
def Declaration.Meets (decl other : Declaration) : Prop :=
  other.node = decl.node ∧ other.kind = decl.kind

/-- What is required of two runs that are compared: the annotations say the same of the nodes, and
names are called anew such that those which mean the same stay the same, and no others become so. -/
structure Rerun.Faithful (rerun : Rerun) : Prop where
  accepted : rerun.known.Accepted
  injective : rerun.recast.Injective
  unchanged : rerun.lenient ∨ ∀ id name, rerun.recast.name id name = name
  unwrapped : rerun.pace = .even → rerun.recast.Unwrapped
  spans : ∀ {scope : ScopeId} {expectation : Expectation} {e : Expr},
    .expr scope expectation e ∈ rerun.known.steps →
    rerun.spans e.mark.span (rerun.recast.span e.mark.span)
  types : ∀ step ∈ rerun.known.steps, ∀ key ∈ step.answers,
    rerun.image.typeFact? key.node key.kind = rerun.known.notes.typeFact? key.node key.kind
  decls : ∀ step ∈ rerun.known.steps, ∀ key ∈ step.answers, key.kind = .decl →
    Option.Rel Declaration.Meets (rerun.known.notes.declOf? key.node)
      (rerun.image.declOf? key.node)
  called : ∀ {scope : ScopeId} {name : String} {kind : DeclKind} {mark : Mark} {position : Nat},
    .declare scope name kind mark position ∈ rerun.known.steps →
    rerun.recast.name mark.id name = rerun.recast.called kind mark.id name
  refers : ∀ {scope : ScopeId} {expectation : Expectation} {mark : Mark} {name : String}
    {decl : Declaration}, .expr scope expectation (.symbol mark name) ∈ rerun.known.steps →
    rerun.known.notes.declOf? mark.id = some decl →
    rerun.recast.name mark.id name = rerun.recast.bound decl.node name
  distinct : ∀ scope, ∀ decl ∈ Step.declared scope rerun.known.steps,
    ∀ other ∈ Step.declared scope rerun.known.steps,
    rerun.recast.bound decl.node decl.name = rerun.recast.bound other.node other.name →
    decl.name = other.name

namespace Rerun

variable {rerun : Rerun}

/-- Causes of errors that go with each other. -/
def Causes (rerun : Rerun) (cause other : RuntimeError.Cause) : Prop :=
  other = cause ∨ rerun.lenient ∧ other.name = cause.name

/-- Ends of steps that go with each other. -/
inductive Ends (rerun : Rerun) {α β : Type} (post : α → β → Prop) :
    EStateM.Result Halt Machine α → EStateM.Result Halt Machine β → Prop
  | ok {result : α} {answer : β} {machine image : Machine} (holds : post result answer)
      (machines : machine.Recasts rerun.recast image) :
      Ends rerun post (.ok result machine) (.ok answer image)
  | failed {cause other : RuntimeError.Cause} {span place : Span} {machine image : Machine}
      (causes : rerun.Causes cause other) (spans : rerun.spans span place)
      (machines : machine.Recasts rerun.recast image) :
      Ends rerun post (.error (.failed ⟨cause, span⟩) machine)
        (.error (.failed ⟨other, place⟩) image)
  | outOfFuel {machine image : Machine} (machines : machine.Recasts rerun.recast image) :
      Ends rerun post (.error .outOfFuel machine) (.error .outOfFuel image)

/-- Steps that end alike on machines that go with each other. -/
def Steps (rerun : Rerun) {α β : Type} (step : Eval α) (other : Eval β) (post : α → β → Prop) :
    Prop :=
  ∀ machine image, machine.Recasts rerun.recast image → rerun.Ends post (step machine) (other image)

/-- The same, where the heap of the first machine conforms to a world. -/
def StepsIn (rerun : Rerun) (w : World) {α β : Type} (step : Eval α) (other : Eval β)
    (post : α → β → Prop) : Prop :=
  ∀ machine image, w.Types rerun.known machine.heap → machine.Recasts rerun.recast image →
    rerun.Ends post (step machine) (other image)

section Rules

variable {α β γ δ : Type} {post middle : α → β → Prop} {w : World}

theorem Steps.inside {step : Eval α} {other : Eval β} (steps : rerun.Steps step other post) :
    rerun.StepsIn w step other post :=
  fun machine image _ recasts => steps machine image recasts

theorem Ends.bind {step : Eval α} {other : Eval β} {next : α → Eval γ} {continued : β → Eval δ}
    {last : γ → δ → Prop} {machine image : Machine}
    (ends : rerun.Ends middle (step machine) (other image))
    (further : ∀ a b after afterToo, step machine = .ok a after → middle a b →
      after.Recasts rerun.recast afterToo → rerun.Ends last (next a after) (continued b afterToo)) :
    rerun.Ends last ((step >>= next) machine) ((other >>= continued) image) := by
  change rerun.Ends last (EStateM.bind step next machine) (EStateM.bind other continued image)
  simp only [EStateM.bind]
  generalize step machine = result at ends further
  generalize other image = answer at ends
  cases ends with
  | ok holds machines => exact further _ _ _ _ rfl holds machines
  | failed causes spans machines => exact .failed causes spans machines
  | outOfFuel machines => exact .outOfFuel machines

/-! ## Putting steps together -/

theorem steps_pure {result : α} {answer : β} (holds : post result answer) :
    rerun.Steps (pure result) (pure answer) post :=
  fun _ _ machines => .ok holds machines

theorem Steps.bind {step : Eval α} {other : Eval β} {next : α → Eval γ} {continued : β → Eval δ}
    {last : γ → δ → Prop} (first : rerun.Steps step other middle)
    (second : ∀ a b, middle a b → rerun.Steps (next a) (continued b) last) :
    rerun.Steps (step >>= next) (other >>= continued) last :=
  fun machine image machines => (first machine image machines).bind
    fun a b after afterToo _ holds recasts => second a b holds after afterToo recasts

/-- Steps after a step that is safe. -/
theorem StepsIn.bind {step : Eval α} {other : Eval β} {next : α → Eval γ} {continued : β → Eval δ}
    {last : γ → δ → Prop} {excuse : Halt → Prop} {kept : World → α → Prop}
    (safe : Eval.Safe rerun.known excuse w step kept) (first : rerun.StepsIn w step other middle)
    (second : ∀ later a b, w ≤ later → kept later a → middle a b →
      rerun.StepsIn later (next a) (continued b) last) :
    rerun.StepsIn w (step >>= next) (other >>= continued) last := by
  intro machine image types machines
  have ends := safe machine types
  refine (first machine image types machines).bind fun a b after afterToo ran holds recasts => ?_
  rw [ran] at ends
  obtain ⟨later, grown, typesLater, keeps⟩ := ends
  exact second later a b grown keeps holds after afterToo typesLater recasts

theorem Steps.mono {step : Eval α} {other : Eval β} {weaker : α → β → Prop}
    (steps : rerun.Steps step other post) (implies : ∀ a b, post a b → weaker a b) :
    rerun.Steps step other weaker := by
  intro machine image machines
  have ends := steps machine image machines
  generalize step machine = result at ends
  generalize other image = answer at ends
  cases ends with
  | ok holds machines => exact .ok (implies _ _ holds) machines
  | failed causes spans machines => exact .failed causes spans machines
  | outOfFuel machines => exact .outOfFuel machines

/-! ## Primitive steps -/

theorem steps_inspect {question : Heap → α} {other : Heap → β}
    (holds : ∀ heap image, heap.Recasts rerun.recast image → post (question heap) (other image)) :
    rerun.Steps (Eval.inspect question) (Eval.inspect other) post :=
  fun machine image machines => .ok (holds machine.heap image.heap machines.heap) machines

theorem steps_change {step : Heap → α × Heap} {other : Heap → β × Heap}
    (holds : ∀ heap image, heap.Recasts rerun.recast image →
      post (step heap).1 (other image).1 ∧ (step heap).2.Recasts rerun.recast (other image).2) :
    rerun.Steps (Eval.change step) (Eval.change other) post := by
  intro machine image machines
  obtain ⟨same, after⟩ := holds machine.heap image.heap machines.heap
  exact .ok same ⟨after, machines.output⟩

theorem steps_update {step other : Heap → Heap}
    (holds : ∀ heap image, heap.Recasts rerun.recast image →
      (step heap).Recasts rerun.recast (other image)) :
    rerun.Steps (Eval.update step) (Eval.update other) fun _ _ => True :=
  fun machine image machines =>
    .ok trivial ⟨holds machine.heap image.heap machines.heap, machines.output⟩

theorem steps_fail {cause other : RuntimeError.Cause} {span place : Span}
    (causes : rerun.Causes cause other) (spans : rerun.spans span place) :
    rerun.Steps (Eval.fail cause span : Eval α) (Eval.fail other place : Eval β) post :=
  fun _ _ machines => .failed causes spans machines

/-- The same error at places that go with each other. -/
theorem steps_failSame {cause : RuntimeError.Cause} {span place : Span}
    (spans : rerun.spans span place) :
    rerun.Steps (Eval.fail cause span : Eval α) (Eval.fail cause place : Eval β) post :=
  steps_fail (.inl rfl) spans

theorem steps_lift {result : Except RuntimeError.Cause α} {convert : α → β} {span place : Span}
    (spans : rerun.spans span place) :
    rerun.Steps (Eval.lift result span) (Eval.lift (result.map convert) place)
      fun a b => b = convert a := by
  cases result with
  | ok value => exact steps_pure rfl
  | error cause => exact steps_failSame spans

theorem steps_textOf (value : Value) :
    rerun.Steps (Eval.textOf value) (Eval.textOf (value.recast rerun.recast))
      fun text other => other = text := by
  have texts : rerun.Steps (Eval.inspect (·.text? value))
      (Eval.inspect (·.text? (value.recast rerun.recast))) fun text other => other = text :=
    steps_inspect fun heap image recasts => recasts.text? value
  refine Steps.bind texts ?_
  rintro _ text rfl
  cases text with
  | some text => exact steps_pure rfl
  | none => exact fun _ _ machines => .outOfFuel machines

theorem steps_write (piece : String) {span place : Span} (spans : rerun.spans span place) :
    rerun.Steps (Eval.write piece span) (Eval.write piece place) fun _ _ => True := by
  have taken : rerun.Steps
      (modifyGet fun machine => ((machine.output.write piece).1,
        { machine with output := (machine.output.write piece).2 }) : Eval Bool)
      (modifyGet fun machine => ((machine.output.write piece).1,
        { machine with output := (machine.output.write piece).2 }) : Eval Bool)
      fun taken other => other = taken := by
    intro machine image machines
    refine .ok ?_ ⟨machines.heap, ?_⟩ <;> simp only [machines.output]
  refine Steps.bind taken ?_
  rintro _ done rfl
  cases done with
  | true => exact steps_pure trivial
  | false => exact steps_failSame spans

end Rules

/-! ## What faithful runs agree on -/

namespace Faithful

variable (faithful : rerun.Faithful)

include faithful

theorem typeOf? {scope : ScopeId} {expectation : Expectation} {e : Expr}
    (step : .expr scope expectation e ∈ rerun.known.steps) :
    rerun.image.typeOf? e.id = rerun.known.notes.typeOf? e.id :=
  faithful.types _ step _ (Step.type_mem_answers scope expectation e)

/-- What an annotated name declares has the same type. -/
theorem declType? {name : TypedName} {what : String}
    (step : Walk.annotated name what ∈ rerun.known.steps) :
    rerun.image.declType? name.mark.id = rerun.known.notes.declType? name.mark.id :=
  faithful.types _ step ⟨name.mark.id, .declType⟩ List.mem_cons_self

/-- What is declared in a scope, unless it is a variable or parameter, is called as it is. -/
theorem bound_of_mem {scope : ScopeId} {decl : Declaration}
    (member : decl ∈ Step.contents scope rerun.known.steps) (notVar : decl.kind ≠ .var)
    (notParam : decl.kind ≠ .param) : rerun.recast.bound decl.node decl.name = decl.name := by
  rcases Step.mem_contents_cases member with ⟨_, builtin⟩ | declared
  · obtain ⟨entry, _, rfl⟩ := List.mem_map.mp builtin
    rfl
  · obtain ⟨name, kind, mark, position, step, rfl⟩ := Step.mem_declared.mp declared
    refine (faithful.called step).trans ?_
    unfold Recast.called
    split
    · exact absurd rfl notVar
    · exact absurd rfl notParam
    · rfl

/-- Declarations of a scope that have different names are told apart in the tree cast anew. -/
theorem apart {scope around : ScopeId} {kind : ScopeKind}
    (opened : .openScope scope kind around ∈ rerun.known.steps) {decl other : Declaration}
    (member : decl ∈ Step.declared scope rerun.known.steps)
    (memberToo : other ∈ Step.declared scope rerun.known.steps) :
    rerun.recast.bound decl.node decl.name = rerun.recast.bound other.node other.name ↔
      decl.name = other.name := by
  refine ⟨faithful.distinct scope decl member other memberToo, fun same => ?_⟩
  obtain ⟨names, order, present⟩ := faithful.accepted.reflects.opened opened
  rw [← faithful.accepted.contents_eq opened] at member memberToo
  rw [faithful.accepted.reflects.eq_of_name present member memberToo same]

end Faithful

end Rerun

end BoxScript
