import BoxScript.Proofs.Running.Making

/-!
# Frames are entered with their names

Statements that are entered have all their functions, structs and boxes bound, and a place for each
of their variables; a call has its parameters bound to the arguments. What is bound fits what the
walk declared in the scope that the new frame stands for, so the frame conforms from its start on.
-/

set_option autoImplicit false

namespace BoxScript

open Walk Step

namespace Eval

variable {notes : Annotations} {frame : FrameId} {machine : Machine}

/-! ## Binding names ahead -/

/-- What statements bind ahead of running. -/
inductive Declares (notes : Annotations) (frame : FrameId) : Stmt → String × Binding → Prop
  | function {decl : FunctionDecl} {id : Nat} :
      Declares notes frame (.function decl)
        (decl.name, ⟨some decl.mark.id, some (.function ⟨id, decl, frame⟩)⟩)
  | struct {decl : StructDecl} {id : Nat} :
      Declares notes frame (.struct decl)
        (decl.name, ⟨some decl.mark.id, some (.type (.struct ⟨id, decl.mark.id, decl.name,
          decl.fields.map fun field => (field.name, declaredType notes field.mark.id)⟩))⟩)
  | box {decl : BoxDecl} {id : Nat} :
      Declares notes frame (.box decl)
        (decl.name, ⟨some decl.mark.id, some (.type (.box ⟨id, decl.mark.id, decl.name,
          decl.attributes.map (fun attr =>
            ⟨attr.name, attr.mark.id, declaredType notes attr.mark.id⟩),
          decl.methods, frame⟩))⟩)
  | var {decl : VariableDecl} :
      Declares notes frame (.var decl) (decl.name, ⟨some decl.mark.id, none⟩)

theorem bind_ok {α β : Type} {step : Eval α} {next : α → Eval β} {a : α} {after : Machine}
    (ran : step machine = .ok a after) : (step >>= next) machine = next a after := by
  change EStateM.bind step next machine = _
  simp only [EStateM.bind, ran]

theorem bind_error {α β : Type} {step : Eval α} {next : α → Eval β} {halt : Halt}
    {after : Machine} (ended : step machine = .error halt after) :
    (step >>= next) machine = .error halt after := by
  change EStateM.bind step next machine = _
  simp only [EStateM.bind, ended]

theorem change_bind {α β : Type} (step : Heap → α × Heap) (next : α → Eval β) :
    (change step >>= next) machine =
      next (step machine.heap).1 { machine with heap := (step machine.heap).2 } :=
  rfl

/-- A machine on which names are bound in a frame, and numbers are taken. -/
def bound (machine : Machine) (frame : FrameId) (entries : List (String × Binding)) (id : Nat) :
    Machine :=
  { machine with
    heap := { machine.heap.modifyNames frame (Frame.bindAll entries) with nextId := id } }

theorem bound_nil : bound machine frame [] machine.heap.nextId = machine := by
  have names : Frame.bindAll [] = id := rfl
  rw [bound, names, Heap.modifyNames_id]

theorem bound_bound (first second : List (String × Binding)) (id last : Nat) :
    bound (bound machine frame first id) frame second last =
      bound machine frame (first ++ second) last := by
  have names : Frame.bindAll second ∘ Frame.bindAll first = Frame.bindAll (first ++ second) := by
    funext names
    exact (Frame.bindAll_append first second names).symm
  rw [bound, bound, bound, ← names, ← Heap.modifyNames_modifyNames]
  rfl

theorem declareAll_eq (frame : FrameId) (machine : Machine) (body : List Stmt) : ∃ entries id,
    declareAll notes frame body machine = .ok () (bound machine frame entries id) ∧
      (∀ entry ∈ entries, ∃ s ∈ body, Declares notes frame s entry) ∧
      ∀ s ∈ body, ∀ scope, ∀ decl ∈ hoisted scope s ++ introduced scope s,
        ∃ binding, (decl.name, binding) ∈ entries := by
  induction body generalizing machine with
  | nil => exact ⟨[], machine.heap.nextId, by rw [bound_nil]; rfl, by simp, by simp⟩
  | cons s rest ih =>
    -- What the first statement binds, if it binds anything.
    have first : ∃ own id, declareAll notes frame (s :: rest) machine =
          declareAll notes frame rest (bound machine frame own id) ∧
        (∀ entry ∈ own, Declares notes frame s entry) ∧
        ∀ scope, ∀ decl ∈ hoisted scope s ++ introduced scope s,
          ∃ binding, (decl.name, binding) ∈ own := by
      cases s with
      | function decl =>
        exact ⟨[(decl.name, ⟨some decl.mark.id, some (.function ⟨_, decl, frame⟩)⟩)],
          machine.heap.nextId + 1, bind_ok rfl, by simpa using .function,
          by simp [hoisted, introduced]⟩
      | struct decl =>
        exact ⟨[(decl.name, _)], machine.heap.nextId + 1, bind_ok rfl, by simpa using .struct,
          by simp [hoisted, introduced]⟩
      | box decl =>
        exact ⟨[(decl.name, _)], machine.heap.nextId + 1, bind_ok rfl, by simpa using .box,
          by simp [hoisted, introduced]⟩
      | var decl =>
        exact ⟨[(decl.name, _)], machine.heap.nextId, bind_ok rfl, by simpa using .var,
          by simp [hoisted, introduced]⟩
      | _ =>
        exact ⟨[], machine.heap.nextId, by rw [bound_nil]; rfl, by simp,
          by simp [hoisted, introduced]⟩
    obtain ⟨own, id, ran, declares, all⟩ := first
    obtain ⟨entries, last, ranRest, declaresRest, allRest⟩ := ih (bound machine frame own id)
    refine ⟨own ++ entries, last, ?_, ?_, ?_⟩
    · rw [ran, ranRest, bound_bound]
    · intro entry member
      rcases List.mem_append.mp member with here | later
      · exact ⟨s, List.mem_cons_self, declares entry here⟩
      · obtain ⟨other, otherMember, otherDeclares⟩ := declaresRest entry later
        exact ⟨other, List.mem_cons_of_mem _ otherMember, otherDeclares⟩
    · intro other member scope decl declared
      rcases List.mem_cons.mp member with rfl | later
      · obtain ⟨binding, found⟩ := all scope decl declared
        exact ⟨binding, List.mem_append_left _ found⟩
      · obtain ⟨binding, found⟩ := allRest other later scope decl declared
        exact ⟨binding, List.mem_append_right _ found⟩

/-- A machine with one more frame, which has names bound. -/
def entered (machine : Machine) (parent : Option FrameId) (entries : List (String × Binding))
    (id : Nat) : Machine :=
  { machine with
    heap := { (machine.heap.newFrame ⟨Frame.bindAll entries [], parent, none⟩).2 with
      nextId := id } }

/-- Names that are bound in a frame that was just made. -/
theorem bound_newFrame (parent : Option FrameId) (entries : List (String × Binding)) (id : Nat) :
    bound { machine with heap := (machine.heap.newFrame ⟨[], parent, none⟩).2 }
      machine.heap.frames.size entries id = entered machine parent entries id := by
  rw [bound, entered, Heap.modifyNames_newFrame]

theorem enter_eq (notes : Annotations) (machine : Machine) (outer : FrameId) (body : List Stmt) :
    ∃ entries id,
    enter notes outer body machine =
        .ok machine.heap.frames.size (entered machine (some outer) entries id) ∧
      (∀ entry ∈ entries, ∃ s ∈ body, Declares notes machine.heap.frames.size s entry) ∧
      ∀ s ∈ body, ∀ scope, ∀ decl ∈ hoisted scope s ++ introduced scope s,
        ∃ binding, (decl.name, binding) ∈ entries := by
  obtain ⟨entries, id, ran, declares, all⟩ := declareAll_eq
    machine.heap.frames.size { machine with heap := (machine.heap.newChild outer).2 } body
  refine ⟨entries, id, ?_, declares, all⟩
  rw [Heap.newChild, bound_newFrame] at ran
  rw [enter, change_bind]
  exact bind_ok ran

/-! ## Parameters -/

/-- What a parameter is bound to. -/
def parameterEntry (notes : Annotations) (given : TypedName × Value) : String × Binding :=
  (given.1.name, ⟨some given.1.mark.id,
    some (given.2.coerce (notes.declType? given.1.mark.id))⟩)

theorem bindParameters_eq (notes : Annotations) (frame : FrameId) (machine : Machine)
    (given : List (TypedName × Value)) :
    bindParameters notes frame given machine =
      .ok () (bound machine frame (given.map (parameterEntry notes)) machine.heap.nextId) := by
  induction given generalizing machine with
  | nil =>
    rw [List.map_nil, bound_nil]
    rfl
  | cons first rest ih =>
    have ran : bindParameters notes frame (first :: rest) machine =
        bindParameters notes frame rest
          (bound machine frame [parameterEntry notes first] machine.heap.nextId) := bind_ok rfl
    rw [ran, ih, bound_bound]
    rfl

theorem enterCall_eq (outer : FrameId) (parameters : List TypedName) (arguments : List Value) :
    enterCall notes outer parameters arguments machine =
      .ok machine.heap.frames.size (entered machine (some outer)
        ((parameters.zip arguments).map (parameterEntry notes)) machine.heap.nextId) := by
  have ran := bindParameters_eq notes machine.heap.frames.size
    { machine with heap := (machine.heap.newChild outer).2 } (parameters.zip arguments)
  rw [Heap.newChild, bound_newFrame] at ran
  rw [enterCall, change_bind]
  exact bind_ok ran

end Eval

namespace World

variable {known : Analysis} {w : World} {heap : Heap}

/-! ## The names of statements -/

section Statements

variable {frame : FrameId} {scope inner : ScopeId} {kind : ScopeKind}
  {enclosing : Option FunctionDecl} {body : List Stmt} {s : Stmt}

/-- What a statement binds is for a declaration of its scope, and fits it. -/
theorem binds_of_declares (accepted : known.Accepted)
    (walked : Body known.steps inner kind scope enclosing body)
    (home : w.scope? frame = some inner) (member : s ∈ body) {entry : String × Binding}
    (declares : Eval.Declares known.notes frame s entry) :
    ∃ decl ∈ contents inner known.steps, decl.name = entry.1 ∧ decl.kind ≠ .method ∧
      w.Binds known decl entry.2 := by
  have positive : 0 < inner := by
    exact Nat.lt_of_le_of_lt (Nat.zero_le _) (accepted.ordered.of_openScope walked.opened).1
  have contents := (accepted.contents_eq walked.opened).trans walked.declared
  obtain ⟨later, inside, owned⟩ :=
    owned_of_mem positive (Nat.lt_succ_self inner) walked.owned member
  have hoistedHere : ∀ decl, decl ∈ hoisted inner s → decl ∈ Step.contents inner known.steps := by
    intro decl here
    rw [contents]
    exact List.mem_append_left _ (List.mem_flatMap.mpr ⟨s, member, here⟩)
  cases declares with
  | @function decl id =>
    refine ⟨_, hoistedHere _ List.mem_cons_self, rfl, by simp, rfl, ?_, by simp⟩
    rintro value same
    cases same
    rw [stmt] at owned
    have through := functionWalked_of_owned inside (owned.plain_right (plain_single rfl))
    obtain ⟨params, result, _, _, declared⟩ := accepted.signature through
    exact ⟨_, declared, .function (.function ⟨inner, later, through, home, declared⟩)
      (Ty.same_refl _)⟩
  | @struct decl id =>
    refine ⟨_, hoistedHere _ List.mem_cons_self, rfl, by simp, rfl, ?_, by simp⟩
    rintro value same
    cases same
    rw [stmt] at owned
    exact ⟨_, rfl, ⟨inner, later, decl, structWalked_of_owned owned, rfl, rfl⟩, rfl⟩
  | @box decl id =>
    refine ⟨_, hoistedHere _ List.mem_cons_self, rfl, by simp, rfl, ?_, by simp⟩
    rintro value same
    cases same
    rw [stmt] at owned
    exact ⟨_, later, rfl, ⟨inner, decl, boxWalked_of_owned inside owned, rfl, rfl, rfl, home⟩, rfl⟩
  | @var decl =>
    refine ⟨⟨decl.name, .var, some decl.mark.id, inner, decl.mark.span.stop.offset,
      decl.mark.span⟩, ?_, rfl, by simp, rfl, by simp, by simp⟩
    rw [contents]
    exact List.mem_append_right _ (List.mem_flatMap.mpr ⟨_, member, List.mem_cons_self⟩)

/-- The names that statements bind are those of their scope. -/
theorem names_of_declares (accepted : known.Accepted)
    (walked : Body known.steps inner kind scope enclosing body)
    (home : w.scope? frame = some inner) {entries : List (String × Binding)}
    (declares : ∀ entry ∈ entries, ∃ s ∈ body, Eval.Declares known.notes frame s entry)
    (all : ∀ s ∈ body, ∀ scope, ∀ decl ∈ hoisted scope s ++ introduced scope s,
      ∃ binding, (decl.name, binding) ∈ entries) :
    w.Names known inner (Frame.bindAll entries []) := by
  refine names_bindAll ?_ ?_
  · intro entry member
    obtain ⟨s, present, declared⟩ := declares entry member
    exact binds_of_declares accepted walked home present declared
  · intro decl member _
    rw [accepted.contents_eq walked.opened, walked.declared] at member
    rcases List.mem_append.mp member with here | here
    · obtain ⟨s, present, declared⟩ := List.mem_flatMap.mp here
      exact all s present inner decl (List.mem_append_left _ declared)
    · obtain ⟨s, present, declared⟩ := List.mem_flatMap.mp here
      exact all s present inner decl (List.mem_append_right _ declared)

/-- Statements declare no methods. -/
theorem plain_of_body (accepted : known.Accepted)
    (walked : Body known.steps inner kind scope enclosing body) :
    ∀ decl ∈ contents inner known.steps, decl.kind ≠ .method := by
  intro decl member
  rw [accepted.contents_eq walked.opened, walked.declared] at member
  rcases List.mem_append.mp member with here | here
  · obtain ⟨s, _, declared⟩ := List.mem_flatMap.mp here
    cases s <;> simp [hoisted] at declared <;> simp [declared]
  · obtain ⟨s, _, declared⟩ := List.mem_flatMap.mp here
    cases s <;> simp [introduced] at declared
    simp [declared]

end Statements

/-! ## The names of parameters -/

section Parameters

variable {scope inner : ScopeId} {parameters : List TypedName} {arguments : List Value}
  {params : List Ty}

/-- The arguments as the parameters hold them have the types of the parameters. -/
theorem hasShape_arguments
    (typed : List.Forall₂ (fun parameter ty => known.notes.typeOf? parameter.type.id = some ty)
      parameters params)
    (suit : List.Forall₂ (w.Suits known) params arguments) :
    ∀ given ∈ parameters.zip arguments, ∃ ty, known.notes.typeOf? given.1.type.id = some ty ∧
      w.HasShape known ty (given.2.coerce (some ty)) := by
  induction typed generalizing arguments with
  | nil => simp
  | cons first _ ih =>
    cases suit with
    | cons argument others =>
      obtain ⟨actual, shape, fits⟩ := argument
      intro given member
      rcases List.mem_cons.mp member with rfl | later
      · exact ⟨_, first, shape.coerce fits⟩
      · exact ih others given later

/-- The names that a call binds are those of the scope of the function. -/
theorem names_of_parameters (accepted : known.Accepted) {decl : FunctionDecl}
    (walked : FunctionWalked known.steps scope inner decl)
    (typed : List.Forall₂ (fun parameter ty => known.notes.typeOf? parameter.type.id = some ty)
      decl.parameters params)
    (suit : List.Forall₂ (w.Suits known) params arguments) :
    w.Names known inner (Frame.bindAll
      ((decl.parameters.zip arguments).map (Eval.parameterEntry known.notes)) []) := by
  have contents := (accepted.contents_eq walked.opened).trans walked.declared
  refine names_bindAll ?_ ?_
  · intro entry member
    obtain ⟨given, givenMember, rfl⟩ := List.mem_map.mp member
    have isParameter : given.1 ∈ decl.parameters := (List.of_mem_zip givenMember).1
    obtain ⟨ty, annotated, shape⟩ := hasShape_arguments typed suit given givenMember
    obtain ⟨what, step⟩ := walked.annotated given.1 isParameter
    obtain ⟨same, annotatedToo, declared⟩ := accepted.annotated step
    rw [annotated] at annotatedToo
    cases annotatedToo
    refine ⟨named inner .param given.1, ?_, rfl, by simp [named], rfl, ?_, ?_⟩
    · rw [contents]
      exact List.mem_map.mpr ⟨_, isParameter, rfl⟩
    · intro value is
      cases is
      rw [declared]
      exact ⟨ty, declared, shape⟩
    · simp [Eval.parameterEntry]
  · intro declaration member _
    rw [contents] at member
    obtain ⟨parameter, isParameter, rfl⟩ := List.mem_map.mp member
    have length : decl.parameters.length = arguments.length :=
      typed.length_eq.trans suit.length_eq
    obtain ⟨place, bound, rfl⟩ := List.mem_iff_getElem.mp isParameter
    have boundToo : place < arguments.length := length ▸ bound
    have pair : (decl.parameters[place], arguments[place]) ∈
        decl.parameters.zip arguments := by
      rw [← List.getElem_zip (h := by rw [List.length_zip, ← length, Nat.min_self]; exact bound)]
      exact List.getElem_mem _
    exact ⟨_, List.mem_map.mpr ⟨_, pair, rfl⟩⟩

end Parameters

/-- A frame with the names of a scope that is not that of a box. -/
theorem Types.entered (types : w.Types known heap) {outer : FrameId} {scope inner : ScopeId}
    {kind : ScopeKind} (home : w.scope? outer = some scope)
    (opened : .openScope inner kind scope ∈ known.steps) (noBox : kind ≠ .box)
    (plain : ∀ decl ∈ contents inner known.steps, decl.kind ≠ .method)
    {names : List (String × Binding)}
    (conform : (w.withFrame (inner, none) (some outer)).Names known inner names) :
    (w.withFrame (inner, none) (some outer)).Types known
      (heap.newFrame ⟨names, some outer, none⟩).2 := by
  refine types.newFrame ⟨rfl, .inr ⟨outer, kind, scope, rfl, types.lt_size home,
    scope?_mono (le_withFrame w _ _) home, opened, ?_⟩, by simp, fun _ => plain, conform⟩ rfl
  simpa using noBox

end World

/-! ## Entering -/

namespace Eval

variable {known : Analysis} {w : World} {excuse : Halt → Prop} {outer : FrameId}
  {scope inner : ScopeId}

/-- The frame of statements is a new one, and stands for their scope. -/
theorem safe_enter (accepted : known.Accepted) {kind : ScopeKind}
    {enclosing : Option FunctionDecl} {body : List Stmt} (home : w.scope? outer = some scope)
    (walked : Body known.steps inner kind scope enclosing body) (noBox : kind ≠ .box) :
    Safe known excuse w (enter known.notes outer body) fun later frame =>
      frame = w.frames.length ∧ later.scope? frame = some inner := by
  intro machine types
  obtain ⟨entries, id, ran, declares, all⟩ :=
    enter_eq known.notes machine outer body
  rw [ran]
  have stands := World.scope?_of_frames (types.frames_withFrame (inner, none) (some outer))
  refine ⟨_, World.le_withFrame w (inner, none) (some outer), ?_, types.frameCount.symm, stands⟩
  exact (types.entered home walked.opened noBox (World.plain_of_body accepted walked)
    (World.names_of_declares accepted walked stands declares all)).withNextId id

/-- The frame of a call is a new one, and stands for the scope of the function. -/
theorem safe_enterCall (accepted : known.Accepted) {decl : FunctionDecl} {arguments : List Value}
    {params : List Ty} (home : w.scope? outer = some scope)
    (walked : FunctionWalked known.steps scope inner decl)
    (typed : List.Forall₂ (fun parameter ty => known.notes.typeOf? parameter.type.id = some ty)
      decl.parameters params)
    (suit : List.Forall₂ (w.Suits known) params arguments) :
    Safe known excuse w (enterCall known.notes outer decl.parameters arguments)
      fun later frame => frame = w.frames.length ∧ later.scope? frame = some inner := by
  intro machine types
  have grown := World.le_withFrame w (inner, none) (some outer)
  rw [enterCall_eq]
  refine ⟨_, grown, ?_, types.frameCount.symm,
    World.scope?_of_frames (types.frames_withFrame (inner, none) (some outer))⟩
  refine (types.entered home walked.opened (by simp) ?_ ?_).withNextId _
  · intro declaration member
    rw [accepted.contents_eq walked.opened, walked.declared] at member
    obtain ⟨parameter, _, rfl⟩ := List.mem_map.mp member
    simp [named]
  · exact (World.names_of_parameters accepted walked typed suit).mono grown

end Eval

end BoxScript
