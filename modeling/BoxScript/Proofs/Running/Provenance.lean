import BoxScript.Proofs.Running.Passages
import BoxScript.Proofs.Running.Selection

/-!
# Where functions, boxes and frames come from

A ledger says which functions and boxes there are, and which frame each frame lies in. Functions get
around: they are stored in variables, rows and attributes, given as arguments and returned. But no
step makes one, apart from the entering of statements. So if a ledger has what is found in a frame
when its statements start, and where the frames lie that passages begin (`Ledger.Covers`), then it
has all functions and boxes that are stored or passed around, and where all frames lie
(`Passage.stays_of_covers`).
-/

set_option autoImplicit false

namespace BoxScript

/-- What is claimed of the functions and boxes of a run, and of where its frames lie. -/
structure Ledger where
  made : Value → Prop
  lies : FrameId → Option FrameId → Prop

variable {ledger : Ledger}

/-! ## Values -/

namespace Value

/-- Whether a value, if it is a function or a box, is on a ledger. -/
def Derived (ledger : Ledger) : Value → Prop
  | function closure => ledger.made (.function closure)
  | type (.box cls) => ledger.made (.type (.box cls))
  | _ => True

theorem Derived.coerce {value : Value} (derived : value.Derived ledger) (ty : Option Ty) :
    (value.coerce ty).Derived ledger := by
  unfold Value.coerce
  split
  · trivial
  · exact derived

theorem derived_unary {op : PrefixOp} {operand result : Value}
    (gives : unary op operand = .ok result) : result.Derived ledger := by
  unfold unary at gives
  split at gives <;> cases gives <;> trivial

theorem derived_intBinary {op : BinaryOp} {a b : Int64} {result : Value}
    (gives : intBinary op a b = .ok result) : result.Derived ledger := by
  unfold intBinary at gives
  split at gives <;> (try split at gives) <;> cases gives <;> trivial

theorem derived_floatBinary {op : BinaryOp} {a b : Float} {result : Value}
    (gives : floatBinary op a b = .ok result) : result.Derived ledger := by
  unfold floatBinary at gives
  split at gives <;> cases gives <;> trivial

theorem derived_binary {op : BinaryOp} {left right result : Value}
    (gives : binary op left right = .ok result) : result.Derived ledger := by
  unfold binary at gives
  split at gives
  · cases gives
    trivial
  · cases gives
    trivial
  · split at gives
    · exact derived_intBinary gives
    · exact derived_floatBinary gives
    · exact derived_floatBinary gives
    · exact derived_floatBinary gives
    · cases gives

end Value

/-- Whether a result of statements is on a ledger. -/
def Completion.Derived (ledger : Ledger) : Completion → Prop
  | normal => True
  | returned value => value.Derived ledger

theorem Completion.Derived.value {completion : Completion} (derived : completion.Derived ledger) :
    completion.value.Derived ledger := by
  cases completion with
  | normal => trivial
  | returned value => exact derived

/-! ## Heaps -/

/-- Whether all that is stored in a heap is on a ledger, and where all frames lie. -/
structure Heap.Derived (ledger : Ledger) (heap : Heap) : Prop where
  names : ∀ {index : FrameId} {frame : Frame} {name : String} {value : Value},
    heap.frames[index]? = some frame → frame.value? name = some value → value.Derived ledger
  rows : ∀ {row : RowId} {values : Array Value}, heap.rows[row]? = some values →
    ∀ value ∈ values, value.Derived ledger
  lies : ∀ {index : FrameId} {frame : Frame}, heap.frames[index]? = some frame →
    ledger.lies index frame.parent

namespace Heap

variable {heap : Heap} {index : FrameId} {name : String} {value : Value}

theorem derived_empty : empty.Derived ledger where
  names := nofun
  rows := nofun
  lies := nofun

/-! ### What is found -/

theorem Derived.getLocal? (derived : heap.Derived ledger)
    (found : heap.getLocal? index name = some value) : value.Derived ledger := by
  obtain ⟨frame, present, has⟩ := Option.bind_eq_some_iff.mp found
  exact derived.names present has

theorem Derived.get (derived : heap.Derived ledger) {decl : Option NodeId}
    (found : heap.get index name decl = .ok value) : value.Derived ledger := by
  rw [get_eq] at found
  split at found
  · cases found
  · split at found
    · rename_i has
      cases found
      exact derived.getLocal? has
    · cases found

theorem Derived.row (derived : heap.Derived ledger) (row : RowId) :
    ∀ value ∈ heap.row row, value.Derived ledger := by
  intro value member
  unfold Heap.row at member
  cases present : heap.rows[row]? with
  | none =>
    rw [present] at member
    exact absurd member (Array.not_mem_empty value)
  | some values =>
    rw [present] at member
    exact derived.rows present value member

/-! ### What is made -/

theorem Derived.newRow (derived : heap.Derived ledger) {values : Array Value}
    (given : ∀ value ∈ values, value.Derived ledger) : (heap.newRow values).2.Derived ledger where
  names := derived.names
  rows := by
    intro row found present
    rcases SymbolTable.getElem?_push_cases present with old | ⟨_, rfl⟩
    · exact derived.rows old
    · exact given
  lies := derived.lies

theorem Derived.newFrame (derived : heap.Derived ledger) {frame : Frame}
    (names : ∀ name value, frame.value? name = some value → value.Derived ledger)
    (lies : ledger.lies heap.frames.size frame.parent) :
    (heap.newFrame frame).2.Derived ledger where
  names := by
    intro index found name value present has
    rcases SymbolTable.getElem?_push_cases present with old | ⟨_, rfl⟩
    · exact derived.names old has
    · exact names name value has
  rows := derived.rows
  lies := by
    intro index found present
    rcases SymbolTable.getElem?_push_cases present with old | ⟨rfl, rfl⟩
    · exact derived.lies old
    · exact lies

theorem Derived.withNextId (derived : heap.Derived ledger) (id : Nat) :
    Heap.Derived ledger { heap with nextId := id } :=
  ⟨derived.names, derived.rows, derived.lies⟩

theorem Derived.default (derived : heap.Derived ledger) (ty : Ty) :
    (heap.default ty).2.Derived ledger ∧ (heap.default ty).1.Derived ledger := by
  cases ty with
  | array component => exact ⟨derived.newRow (by simp), trivial⟩
  | _ => exact ⟨derived, trivial⟩

theorem Derived.defaults (derived : heap.Derived ledger) (attributes : List Attribute)
    (names : List (String × Binding))
    (held : ∀ name value, (names.lookup name).bind (·.value) = some value →
      value.Derived ledger) :
    (heap.defaults attributes names).2.Derived ledger ∧
      ∀ name value, ((heap.defaults attributes names).1.lookup name).bind (·.value) = some value →
        value.Derived ledger := by
  induction attributes generalizing heap names with
  | nil => exact ⟨derived, held⟩
  | cons attr rest ih =>
    obtain ⟨after, initial⟩ := derived.default attr.type
    refine ih after _ fun name value found => ?_
    rw [Frame.lookup_bind] at found
    split at found
    · cases found
      exact initial
    · exact held name value found

/-- Default values make no frames. -/
theorem frames_defaults (heap : Heap) (attributes : List Attribute)
    (names : List (String × Binding)) :
    (heap.defaults attributes names).2.frames = heap.frames := by
  induction attributes generalizing heap names with
  | nil => rfl
  | cons attr rest ih =>
    refine (ih _ _).trans ?_
    cases attr.type <;> rfl

theorem Derived.newInstance (derived : heap.Derived ledger) {cls : BoxClass}
    (lies : ledger.lies heap.frames.size (some cls.frame)) :
    (heap.newInstance cls).2.Derived ledger := by
  obtain ⟨after, initial⟩ := derived.defaults cls.attributes [] (by simp)
  refine after.newFrame initial ?_
  rw [frames_defaults]
  exact lies

/-! ### What is changed -/

theorem Derived.modifyNames (derived : heap.Derived ledger)
    {change : List (String × Binding) → List (String × Binding)}
    (keeps : ∀ names : List (String × Binding),
      (∀ name value, (names.lookup name).bind (·.value) = some value → value.Derived ledger) →
      ∀ name value, ((change names).lookup name).bind (·.value) = some value →
        value.Derived ledger) :
    (heap.modifyNames index change).Derived ledger where
  names := by
    intro other found name value present has
    simp only [Heap.modifyNames, Array.getElem?_modify] at present
    split at present
    · obtain ⟨before, old, rfl⟩ := Option.map_eq_some_iff.mp present
      exact keeps before.names (fun _ _ had => derived.names old had) name value has
    · exact derived.names present has
  rows := derived.rows
  lies := by
    intro other found present
    simp only [Heap.modifyNames, Array.getElem?_modify] at present
    split at present
    · obtain ⟨before, old, rfl⟩ := Option.map_eq_some_iff.mp present
      have lies := derived.lies old
      exact lies
    · exact derived.lies present

theorem Derived.define (derived : heap.Derived ledger) (given : value.Derived ledger)
    (decl : Option NodeId) : (heap.define index name decl value).Derived ledger := by
  refine derived.modifyNames fun names held other stored found => ?_
  rw [Frame.lookup_bind] at found
  split at found
  · cases found
    exact given
  · exact held other stored found

theorem Derived.assignLocal (derived : heap.Derived ledger) (given : value.Derived ledger) :
    (heap.assignLocal index name value).2.Derived ledger := by
  unfold Heap.assignLocal
  split
  · exact derived
  · refine derived.modifyNames fun names held other stored found => ?_
    rw [Frame.lookup_write] at found
    split at found
    · obtain ⟨binding, looked, has⟩ := Option.bind_eq_some_iff.mp found
      obtain ⟨_, _, rfl⟩ := Option.map_eq_some_iff.mp looked
      cases has
      exact given
    · exact held other stored found

theorem Derived.assign (derived : heap.Derived ledger) (given : value.Derived ledger)
    (decl : Option NodeId) : (heap.assign index name decl value).2.Derived ledger := by
  rw [assign_eq]
  split
  · exact derived
  · rename_i home _
    have assigned : (heap.assignLocal home name value).2.Derived ledger :=
      derived.assignLocal given
    split <;> simp_all

theorem Derived.setItem (derived : heap.Derived ledger) (given : value.Derived ledger)
    (row : RowId) (place : Nat) : (heap.setItem row place value).Derived ledger where
  names := derived.names
  rows := by
    intro other values present found member
    simp only [Heap.setItem, Array.getElem?_modify] at present
    split at present
    · obtain ⟨before, old, rfl⟩ := Option.map_eq_some_iff.mp present
      rcases Array.mem_or_eq_of_mem_setIfInBounds member with had | rfl
      · exact derived.rows old found had
      · exact given
    · exact derived.rows present found member
  lies := derived.lies

end Heap

/-! ## Steps -/

namespace Eval

variable {α β : Type} {post : α → Prop}

/-- A step that goes from what is on a ledger to what is on it. -/
def Derives (ledger : Ledger) (step : Eval α) (post : α → Prop) : Prop :=
  ∀ (machine : Machine) (result : α) (after : Machine), machine.heap.Derived ledger →
    step machine = .ok result after → after.heap.Derived ledger ∧ post result

/-- Two steps that end both do. -/
theorem exists_of_bind_ok {step : Eval β} {next : β → Eval α} {machine after : Machine}
    {result : α} (ran : (step >>= next) machine = .ok result after) :
    ∃ middle between,
      step machine = .ok middle between ∧ next middle between = .ok result after := by
  change EStateM.bind step next machine = _ at ran
  simp only [EStateM.bind] at ran
  split at ran
  · exact ⟨_, _, ‹_›, ran⟩
  · cases ran

theorem derives_pure {result : α} (holds : post result) :
    Derives ledger (pure result : Eval α) post := by
  intro machine found after derived ran
  cases ran
  exact ⟨derived, holds⟩

theorem derives_bind {step : Eval β} {next : β → Eval α} {middle : β → Prop}
    (first : Derives ledger step middle)
    (second : ∀ result, middle result → Derives ledger (next result) post) :
    Derives ledger (step >>= next) post := by
  intro machine result after derived ran
  obtain ⟨found, between, ranFirst, ranSecond⟩ := exists_of_bind_ok ran
  obtain ⟨derivedBetween, holds⟩ := first machine found between derived ranFirst
  exact second found holds between result after derivedBetween ranSecond

theorem derives_inspect {question : Heap → α}
    (holds : ∀ heap : Heap, heap.Derived ledger → post (question heap)) :
    Derives ledger (inspect question) post := by
  intro machine result after derived ran
  cases ran
  exact ⟨derived, holds machine.heap derived⟩

theorem derives_question (question : Heap → α) :
    Derives ledger (inspect question) fun _ => True :=
  derives_inspect fun _ _ => trivial

theorem derives_change {step : Heap → α × Heap}
    (holds : ∀ heap : Heap, heap.Derived ledger →
      (step heap).2.Derived ledger ∧ post (step heap).1) :
    Derives ledger (change step) post := by
  intro machine result after derived ran
  cases ran
  exact holds machine.heap derived

theorem derives_update {step : Heap → Heap}
    (holds : ∀ heap : Heap, heap.Derived ledger → (step heap).Derived ledger) :
    Derives ledger (update step) fun _ => True := by
  intro machine result after derived ran
  cases ran
  exact ⟨holds machine.heap derived, trivial⟩

theorem derives_fail (cause : RuntimeError.Cause) (span : Span) :
    Derives ledger (fail cause span : Eval α) post :=
  fun _ _ _ _ ran => nomatch ran

theorem derives_fault (reason : Fault) (span : Span) :
    Derives ledger (fault reason span : Eval α) post :=
  derives_fail _ span

theorem derives_lift {result : Except RuntimeError.Cause α} {span : Span}
    (holds : ∀ value, result = .ok value → post value) :
    Derives ledger (lift result span) post := by
  cases result with
  | ok value => exact derives_pure (holds value rfl)
  | error cause => exact derives_fail cause span

theorem derives_textOf (value : Value) : Derives ledger (textOf value) fun _ => True := by
  refine derives_bind (derives_question _) fun text _ => ?_
  cases text with
  | some text => exact derives_pure trivial
  | none => exact fun _ _ _ _ ran => nomatch ran

theorem derives_write (piece : String) (span : Span) :
    Derives ledger (write piece span) fun _ => True := by
  have takes : Derives ledger (modifyGet fun machine => ((machine.output.write piece).1,
      { machine with output := (machine.output.write piece).2 }) : Eval Bool) fun _ => True := by
    intro machine result after derived ran
    cases ran
    exact ⟨derived, trivial⟩
  refine derives_bind takes fun taken _ => ?_
  cases taken with
  | true => exact derives_pure trivial
  | false => exact derives_fault _ span

/-! ### Parts of expressions -/

variable {notes : Annotations} {frame : FrameId} {mark : Mark} {name : String} {span : Span}

theorem derives_declNode (node : NodeId) :
    Derives ledger (declNode notes node name span) fun _ => True := by
  unfold declNode
  split
  · exact derives_pure trivial
  · exact derives_fault _ span

theorem derives_slotError (error : SlotError) :
    Derives ledger (slotError error name span : Eval α) post := by
  cases error with
  | unbound => exact derives_fault _ span
  | uninitialised => exact derives_fail _ span

theorem derives_bindMethod (receiver : FrameId) :
    Derives ledger (bindMethod receiver name span) (·.Derived ledger) := by
  refine derives_bind (derives_question _) fun found _ => ?_
  cases found with
  | some decl => exact derives_pure trivial
  | none => exact derives_fault _ span

theorem derives_read : Derives ledger (read notes frame mark name) (·.Derived ledger) := by
  refine derives_bind (derives_declNode mark.id) fun decl _ => ?_
  have looks : Derives ledger (inspect (·.get frame name decl)) fun found =>
      ∀ value, found = .ok value → value.Derived ledger :=
    derives_inspect fun heap derived value same => derived.get same
  refine derives_bind looks fun found holds => ?_
  cases found with
  | ok value => exact derives_pure (holds value rfl)
  | error error => exact derives_slotError error

theorem derives_symbol : Derives ledger (symbol notes frame mark name) (·.Derived ledger) := by
  unfold symbol
  split
  · refine derives_bind (derives_question _) fun found _ => ?_
    cases found with
    | some receiver => exact derives_bindMethod receiver
    | none => exact derives_fault _ mark.span
  · exact derives_read

theorem derives_typeNamed : Derives ledger (typeNamed notes frame mark name) fun value =>
    (Value.type value).Derived ledger := by
  refine derives_bind derives_read fun value derived => ?_
  cases value with
  | type value => exact derives_pure derived
  | _ => exact derives_fault _ mark.span

/-- A name is read without any change. -/
theorem machine_of_read {machine after : Machine} {value : Value}
    (ran : read notes frame mark name machine = .ok value after) : after = machine := by
  obtain ⟨decl, between, declared, ranRead⟩ := exists_of_bind_ok ran
  have same : between = machine := by
    cases means : notes.declOf? mark.id with
    | some decl =>
      rw [declNode, means] at declared
      cases declared
      rfl
    | none =>
      rw [declNode, means] at declared
      cases declared
  rw [inspect_bind] at ranRead
  cases found : between.heap.get frame name decl with
  | ok value =>
    rw [found] at ranRead
    cases ranRead
    exact same
  | error error =>
    rw [found] at ranRead
    cases error <;> cases ranRead

theorem machine_of_typeNamed {machine after : Machine} {value : TypeValue}
    (ran : typeNamed notes frame mark name machine = .ok value after) : after = machine := by
  obtain ⟨found, between, ranRead, ended⟩ := exists_of_bind_ok ran
  cases machine_of_read ranRead
  cases found with
  | type value =>
    cases ended
    rfl
  | _ => cases ended

/-- What the making of an instance does: it reads the box, and adds a frame. -/
theorem create_ok {machine after : Machine} {value : Value}
    (ran : create notes frame mark name machine = .ok value after) :
    ∃ cls, typeNamed notes frame mark name machine = .ok (.box cls) machine ∧
      value = .box machine.heap.frames.size ∧
      after = { machine with heap := (machine.heap.newInstance cls).2 } := by
  obtain ⟨found, between, named, making⟩ := exists_of_bind_ok ran
  cases machine_of_typeNamed named
  cases found with
  | box cls =>
    cases making
    have new := Heap.frames_defaults machine.heap cls.attributes []
    exact ⟨cls, named, congrArg (fun frames => Value.box frames.size) new, rfl⟩
  | _ => cases making

theorem derives_constructor :
    Derives ledger (constructor notes frame mark name) (·.Derived ledger) := by
  refine derives_bind derives_typeNamed fun value _ => ?_
  cases value with
  | struct cls => exact derives_pure trivial
  | _ => exact derives_fault _ mark.span

theorem derives_expectBool (value : Value) :
    Derives ledger (expectBool value span) fun _ => True := by
  cases value with
  | bool value => exact derives_pure trivial
  | _ => exact derives_fault _ span

theorem derives_expectIndex (value : Value) (length : Nat) :
    Derives ledger (expectIndex value length span) fun _ => True := by
  cases value with
  | int index =>
    unfold expectIndex
    dsimp only
    split
    · exact derives_pure trivial
    · exact derives_fail _ span
  | _ => exact derives_fault _ span

theorem derives_expectArray (value : Value) (use : Use) :
    Derives ledger (expectArray value use span) fun _ => True := by
  cases value with
  | array row => exact derives_pure trivial
  | null => exact derives_fail _ span
  | _ => exact derives_fault _ span

/-- What stands at a place of values on a ledger. -/
theorem derived_getElem? {values : Array Value} (held : ∀ value ∈ values, value.Derived ledger)
    (place : Nat) : ∀ value, values[place]? = some value → value.Derived ledger :=
  fun value found => held value (Array.mem_of_getElem? found)

theorem derives_row (row : RowId) : Derives ledger (inspect (·.row row)) fun values =>
    ∀ value ∈ values, value.Derived ledger :=
  derives_inspect fun _ derived => derived.row row

theorem derives_readElement (array index : Value) :
    Derives ledger (readElement array index span) (·.Derived ledger) := by
  refine derives_bind (derives_expectArray array .indexing) fun row _ => ?_
  refine derives_bind (derives_row row) fun elements held => ?_
  refine derives_bind (derives_expectIndex index elements.size) fun place _ => derives_pure ?_
  cases found : elements[place]? with
  | some value => exact derived_getElem? held place value found
  | none => trivial

theorem derives_assignElement (array index : Value) {value : Value}
    (given : value.Derived ledger) :
    Derives ledger (assignElement array index value span) fun _ => True :=
  derives_bind (derives_expectArray array .assigningElement) fun row _ =>
    derives_bind (derives_question _) fun length _ =>
      derives_bind (derives_expectIndex index length) fun place _ =>
        derives_update fun _ derived => derived.setItem given row place

theorem derives_readField (receiver : Value) :
    Derives ledger (readField receiver name span) (·.Derived ledger) := by
  unfold readField
  split
  · exact derives_bind (derives_question _)
      fun _ _ => derives_pure trivial
  · refine derives_bind (derives_row _) fun fields held => ?_
    split
    · rename_i value found
      obtain ⟨place, _, has⟩ := Option.bind_eq_some_iff.mp found
      exact derives_pure (derived_getElem? held place value has)
    · exact derives_fault _ span
  · exact derives_fail _ span
  · exact derives_fault _ span

theorem derives_assignField (receiver : Value) {value : Value} (given : value.Derived ledger) :
    Derives ledger (assignField receiver name value span) fun _ => True := by
  unfold assignField
  split
  · split
    · exact derives_update fun _ derived => derived.setItem given _ _
    · exact derives_fault _ span
  · exact derives_fail _ span
  · exact derives_fault _ span

theorem derives_readMember (receiver : Value) :
    Derives ledger (readMember notes mark receiver name) (·.Derived ledger) := by
  unfold readMember
  split
  · rename_i home
    split
    · exact derives_bindMethod home
    · have looks : Derives ledger (inspect (·.getLocal? home name)) fun found =>
          ∀ value, found = some value → value.Derived ledger :=
        derives_inspect fun heap derived value same => derived.getLocal? same
      refine derives_bind looks fun found holds => ?_
      cases found with
      | some value => exact derives_pure (holds value rfl)
      | none => exact derives_fault _ mark.span
  · exact derives_fail _ mark.span
  · exact derives_fault _ mark.span

theorem derives_assignMember (receiver : Value) {value : Value} (given : value.Derived ledger) :
    Derives ledger (assignMember receiver name value span) fun _ => True := by
  unfold assignMember
  split
  · rename_i home
    have assigns : Derives ledger (change (·.assignLocal home name value)) fun _ => True :=
      derives_change fun heap derived => ⟨derived.assignLocal given, trivial⟩
    refine derives_bind assigns fun had _ => ?_
    cases had with
    | true => exact derives_pure trivial
    | false => exact derives_fault _ span
  · exact derives_fail _ span
  · exact derives_fault _ span

theorem derives_newRow {values : Array Value} (given : ∀ value ∈ values, value.Derived ledger) :
    Derives ledger (change (·.newRow values)) fun _ => True :=
  derives_change fun _ derived => ⟨derived.newRow given, trivial⟩

theorem derives_construct (cls : StructClass) {arguments : List Value}
    (given : ∀ value ∈ arguments, value.Derived ledger) :
    Derives ledger (construct cls arguments) (·.Derived ledger) := by
  refine derives_bind (derives_newRow fun value member => ?_) fun _ _ => derives_pure trivial
  obtain ⟨place, bound, rfl⟩ := List.mem_iff_getElem.mp (List.mem_toArray.mp member)
  rw [List.getElem_zipWith]
  exact (given _ (List.getElem_mem _)).coerce _

theorem derives_callBuiltin (function : Builtin) {arguments : List Value}
    (given : ∀ value ∈ arguments, value.Derived ledger) :
    Derives ledger (callBuiltin function arguments span) (·.Derived ledger) := by
  unfold callBuiltin
  split
  · rename_i argument
    refine derives_bind (derives_textOf argument) fun text _ => ?_
    refine derives_bind (derives_bind (derives_write text span) fun _ _ =>
      derives_write "\n" span) fun _ _ => ?_
    exact derives_pure (given argument List.mem_cons_self)
  · exact derives_fault _ span

theorem derives_binary (op : BinaryOp) (left right : Value) :
    Derives ledger (binary notes mark op left right) (·.Derived ledger) := by
  unfold binary
  split
  · exact derives_bind (derives_textOf left) fun _ _ =>
      derives_bind (derives_textOf right) fun _ _ => derives_pure trivial
  · exact derives_lift fun _ gives => Value.derived_binary gives

end Eval

end BoxScript
