import BoxScript.Proofs.Running.Heaps

/-!
# Safe steps and plans

A step on the machine is safe in a world if, on every heap that conforms to it, it ends with a heap
that conforms to a world that has grown, and with a result that has a given property there. It may
halt with an error, but with a fault only if that fault is excused. There is a rule for each way in
which steps are put together, and one for each primitive step.
-/

set_option autoImplicit false

namespace BoxScript

/-- Whether a run halts for a reason that the analysis should have ruled out, or because its output
was refused. -/
def Halt.isFault : Halt → Bool
  | .failed ⟨.fault _, _⟩ => true
  | _ => false

namespace Eval

variable {α β : Type} {known : Analysis} {w later : World} {excuse : Halt → Prop}
  {post weaker : World → α → Prop}

/-- What is required of the end of a step. -/
def Ends (known : Analysis) (excuse : Halt → Prop) (w : World) (post : World → α → Prop) :
    EStateM.Result Halt Machine α → Prop
  | .ok result machine => ∃ later, w ≤ later ∧ later.Types known machine.heap ∧ post later result
  | .error halt machine =>
    (∃ later, w ≤ later ∧ later.Types known machine.heap) ∧ (halt.isFault = true → excuse halt)

/-- A step that is safe in a world. -/
def Safe (known : Analysis) (excuse : Halt → Prop) (w : World) (step : Eval α)
    (post : World → α → Prop) : Prop :=
  ∀ machine, w.Types known machine.heap → Ends known excuse w post (step machine)

theorem Ends.mono {result : EStateM.Result Halt Machine α}
    (ends : Ends known excuse later post result) (grown : w ≤ later)
    (implies : ∀ last result, later ≤ last → post last result → weaker last result) :
    Ends known excuse w weaker result := by
  cases result with
  | ok result machine =>
    obtain ⟨last, further, types, holds⟩ := ends
    exact ⟨last, le_trans grown further, types, implies last result further holds⟩
  | error halt machine =>
    obtain ⟨⟨last, further, types⟩, excused⟩ := ends
    exact ⟨⟨last, le_trans grown further, types⟩, excused⟩

theorem Safe.mono {step : Eval α} (safe : Safe known excuse w step post)
    (implies : ∀ later result, w ≤ later → post later result → weaker later result) :
    Safe known excuse w step weaker :=
  fun machine types => (safe machine types).mono (le_refl w) implies

/-! ## Putting steps together -/

theorem safe_pure {result : α} (holds : post w result) :
    Safe known excuse w (pure result) post :=
  fun _ types => ⟨w, le_refl w, types, holds⟩

theorem safe_bind {step : Eval β} {next : β → Eval α} {middle : World → β → Prop}
    (first : Safe known excuse w step middle)
    (second : ∀ later result, w ≤ later → middle later result →
      Safe known excuse later (next result) post) :
    Safe known excuse w (step >>= next) post := by
  intro machine types
  have ends := first machine types
  change Ends known excuse w post (EStateM.bind step next machine)
  unfold EStateM.bind
  cases result : step machine with
  | ok a after =>
    rw [result] at ends
    obtain ⟨later, grown, typesLater, holds⟩ := ends
    exact (second later a grown holds after typesLater).mono grown fun _ _ _ => id
  | error halt after =>
    rw [result] at ends
    exact ends

/-! ## Primitive steps -/

theorem safe_inspect {question : Heap → α}
    (holds : ∀ heap, w.Types known heap → post w (question heap)) :
    Safe known excuse w (inspect question) post :=
  fun machine types => ⟨w, le_refl w, types, holds machine.heap types⟩

theorem safe_change {step : Heap → α × Heap}
    (holds : ∀ heap, w.Types known heap →
      ∃ later, w ≤ later ∧ later.Types known (step heap).2 ∧ post later (step heap).1) :
    Safe known excuse w (change step) post :=
  fun machine types => holds machine.heap types

theorem safe_update {step : Heap → Heap} {post : World → Unit → Prop}
    (keeps : ∀ heap, w.Types known heap → w.Types known (step heap)) (holds : post w ()) :
    Safe known excuse w (update step) post :=
  fun machine types => ⟨w, le_refl w, keeps machine.heap types, holds⟩

theorem safe_fail {cause : RuntimeError.Cause} {span : Span}
    (excused : (Halt.failed ⟨cause, span⟩).isFault = true → excuse (.failed ⟨cause, span⟩)) :
    Safe known excuse w (fail cause span : Eval α) post :=
  fun _ types => ⟨⟨w, le_refl w, types⟩, excused⟩

theorem safe_outOfFuel : Safe known excuse w (throw .outOfFuel : Eval α) post :=
  fun _ types => ⟨⟨w, le_refl w, types⟩, by simp [Halt.isFault]⟩

theorem safe_lift {result : Except RuntimeError.Cause α} {span : Span}
    (holds : match result with
      | .ok value => post w value
      | .error cause => (Halt.failed ⟨cause, span⟩).isFault = false) :
    Safe known excuse w (lift result span) post := by
  cases result with
  | ok value => exact safe_pure holds
  | error cause =>
    refine safe_fail fun fault => ?_
    rw [holds] at fault
    cases fault

theorem safe_textOf {value : Value} {post : World → String → Prop}
    (holds : ∀ later text, w ≤ later → post later text) :
    Safe known excuse w (textOf value) post := by
  refine safe_bind (safe_inspect fun _ _ => trivial : Safe known excuse w _ fun _ _ => True) ?_
  intro later text grown _
  cases text with
  | some text => exact safe_pure (holds later text grown)
  | none => exact safe_outOfFuel

/-- Writing text may be refused. -/
theorem safe_write {piece : String} {span : Span} {post : World → Unit → Prop}
    (holds : ∀ later, w ≤ later → post later ())
    (excused : excuse (.failed ⟨.fault (.outputRefused Sink.refusal), span⟩)) :
    Safe known excuse w (write piece span) post := by
  have taken : Safe known excuse w
      (modifyGet fun machine => ((machine.output.write piece).1,
        { machine with output := (machine.output.write piece).2 }) : Eval Bool) fun _ _ => True :=
    fun machine types => ⟨w, le_refl w, types, trivial⟩
  refine safe_bind taken fun later taken grown _ => ?_
  cases taken with
  | true => exact safe_pure (holds later grown)
  | false => exact safe_fail fun _ => excused

end Eval

end BoxScript
