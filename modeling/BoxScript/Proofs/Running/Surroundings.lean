import BoxScript.Proofs.Running.Sparing

/-!
# Evaluation spares what is there

Each clause is a plan that spares machines if its task is in a frame on the ground
(`sparing_clause`), so evaluation does (`sparing_evaluate`), however it ends. The frames of blocks
and calls are made on the ground, although a method runs inside an instance. So all tasks that a run
comes by are in frames on the ground (`Program.grounded_at_visits`).
-/

set_option autoImplicit false

namespace BoxScript

/-! ## Parts of expressions -/

namespace Eval

variable {notes : Annotations} {frame : FrameId} {mark : Mark} {name : String} {span : Span}

theorem sparing_declNode (node : NodeId) : Sparing (declNode notes node name span) := by
  unfold declNode
  split
  · exact sparing_pure _
  · exact sparing_fault _ span

theorem sparing_slotError {α : Type} (error : SlotError) :
    Sparing (slotError error name span : Eval α) := by
  cases error with
  | unbound => exact sparing_fault _ span
  | uninitialised => exact sparing_fail _ span

theorem sparing_bindMethod (receiver : FrameId) : Sparing (bindMethod receiver name span) := by
  refine sparing_bind (sparing_inspect _) fun found => ?_
  cases found with
  | some decl => exact sparing_pure _
  | none => exact sparing_fault _ span

theorem sparing_read : Sparing (read notes frame mark name) := by
  refine sparing_bind (sparing_declNode mark.id) fun decl => ?_
  refine sparing_bind (sparing_inspect _) fun found => ?_
  cases found with
  | ok value => exact sparing_pure value
  | error error => exact sparing_slotError error

theorem sparing_symbol : Sparing (symbol notes frame mark name) := by
  unfold symbol
  split
  · refine sparing_bind (sparing_inspect _) fun receiver => ?_
    cases receiver with
    | some receiver => exact sparing_bindMethod receiver
    | none => exact sparing_fault _ mark.span
  · exact sparing_read

theorem sparing_typeNamed : Sparing (typeNamed notes frame mark name) := by
  refine sparing_bind sparing_read fun value => ?_
  cases value with
  | type value => exact sparing_pure value
  | _ => exact sparing_fault _ mark.span

theorem sparing_constructor : Sparing (constructor notes frame mark name) := by
  refine sparing_bind sparing_typeNamed fun value => ?_
  cases value with
  | struct cls => exact sparing_pure _
  | _ => exact sparing_fault _ mark.span

theorem sparing_create : Sparing (create notes frame mark name) := by
  refine sparing_bind sparing_typeNamed fun value => ?_
  cases value with
  | box cls =>
    exact sparing_bind (sparing_change fun heap => heap.spares_newInstance cls)
      fun _ => sparing_pure _
  | _ => exact sparing_fault _ mark.span

theorem sparing_expectBool (value : Value) : Sparing (expectBool value span) := by
  cases value with
  | bool value => exact sparing_pure value
  | _ => exact sparing_fault _ span

theorem sparing_expectIndex (value : Value) (length : Nat) :
    Sparing (expectIndex value length span) := by
  cases value with
  | int index =>
    unfold expectIndex
    dsimp only
    split
    · exact sparing_pure _
    · exact sparing_fail _ span
  | _ => exact sparing_fault _ span

theorem sparing_expectArray (value : Value) (use : Use) : Sparing (expectArray value use span) := by
  cases value with
  | array row => exact sparing_pure row
  | null => exact sparing_fail _ span
  | _ => exact sparing_fault _ span

theorem sparing_readElement (array index : Value) : Sparing (readElement array index span) :=
  sparing_bind (sparing_expectArray array .indexing) fun _ =>
    sparing_bind (sparing_inspect _) fun elements =>
      sparing_bind (sparing_expectIndex index elements.size) fun _ => sparing_pure _

theorem sparing_assignElement (array index value : Value) :
    Sparing (assignElement array index value span) :=
  sparing_bind (sparing_expectArray array .assigningElement) fun row =>
    sparing_bind (sparing_inspect _) fun length =>
      sparing_bind (sparing_expectIndex index length) fun place =>
        sparing_update fun heap => heap.spares_setItem row place value

theorem sparing_readField (receiver : Value) : Sparing (readField receiver name span) := by
  unfold readField
  split
  · exact sparing_bind (sparing_inspect _) fun _ => sparing_pure _
  · refine sparing_bind (sparing_inspect _) fun fields => ?_
    split
    · exact sparing_pure _
    · exact sparing_fault _ span
  · exact sparing_fail _ span
  · exact sparing_fault _ span

theorem sparing_assignField (receiver value : Value) :
    Sparing (assignField receiver name value span) := by
  unfold assignField
  split
  · split
    · exact sparing_update fun heap => heap.spares_setItem _ _ value
    · exact sparing_fault _ span
  · exact sparing_fail _ span
  · exact sparing_fault _ span

theorem sparing_readMember (receiver : Value) : Sparing (readMember notes mark receiver name) := by
  unfold readMember
  split
  · split
    · exact sparing_bindMethod _
    · refine sparing_bind (sparing_inspect _) fun found => ?_
      cases found with
      | some value => exact sparing_pure value
      | none => exact sparing_fault _ mark.span
  · exact sparing_fail _ mark.span
  · exact sparing_fault _ mark.span

theorem sparing_assignMember (receiver value : Value) :
    Sparing (assignMember receiver name value span) := by
  unfold assignMember
  split
  · rename_i instanceFrame
    refine sparing_bind
      (sparing_change fun heap => heap.spares_assignLocal instanceFrame name value) fun had => ?_
    cases had with
    | true => exact sparing_pure ()
    | false => exact sparing_fault _ span
  · exact sparing_fail _ span
  · exact sparing_fault _ span

theorem sparing_construct (cls : StructClass) (arguments : List Value) :
    Sparing (construct cls arguments) :=
  sparing_bind (sparing_change fun heap => heap.spares_newRow _) fun _ => sparing_pure _

theorem sparing_callBuiltin (function : Builtin) (arguments : List Value) :
    Sparing (callBuiltin function arguments span) := by
  unfold callBuiltin
  split
  · exact sparing_bind (sparing_textOf _) fun text =>
      sparing_bind (sparing_writeLine text span) fun _ => sparing_pure _
  · exact sparing_fault _ span

theorem sparing_binary (op : BinaryOp) (left right : Value) :
    Sparing (binary notes mark op left right) := by
  unfold binary
  split
  · exact sparing_bind (sparing_textOf left) fun _ =>
      sparing_bind (sparing_textOf right) fun _ => sparing_pure _
  · exact sparing_lift _ mark.span

/-! ## Entering -/

/-- A machine with one more frame, which is on the ground. -/
theorem spares_entered (machine : Machine) (parent : Option FrameId)
    (entries : List (String × Binding)) (id : Nat) :
    machine.Spares (entered machine parent entries id) ∧
      (entered machine parent entries id).heap.Grounds machine.heap.frames.size := by
  have numbered : ∀ heap : Heap, heap.Spares { heap with nextId := id } :=
    fun heap => Heap.spares_of_same rfl rfl
  refine ⟨Machine.spares_of_heap ((machine.heap.spares_newFrame _).trans (numbered _)), ?_⟩
  exact (machine.heap.grounds_newFrame rfl).mono (numbered _)

/-- What statements declare may be bound in a frame on the ground. -/
theorem spares_declareAll (notes : Annotations) {machine : Machine}
    (grounds : machine.heap.Grounds frame) (body : List Stmt) :
    machine.Spares ((declareAll notes frame body).left machine) := by
  obtain ⟨entries, id, ran, _⟩ := @declareAll_eq notes frame machine body
  have left : (declareAll notes frame body).left machine = bound machine frame entries id := by
    rw [Eval.left, ran]
  rw [left]
  exact Machine.spares_of_heap
    ((grounds.spares_names (Frame.bindAll entries)).trans (Heap.spares_of_same rfl rfl))

end Eval

/-! ## Clauses -/

namespace Plan

variable {α : Type} {notes : Annotations} {base : Machine} {next : FrameId → Plan α}

theorem sparing_enter {outer : FrameId} {body : List Stmt}
    (inside : ∀ frame (later : Machine), later.heap.Grounds frame → (next frame).Sparing later) :
    ((liftM (Eval.enter notes outer body) : Plan FrameId) >>= next).Sparing base := by
  refine sparing_entered (fun machine => ?_) inside
  obtain ⟨entries, id, ran, _⟩ := Eval.enter_eq notes machine outer body
  exact ⟨_, ran, Eval.spares_entered machine (some outer) entries id⟩

theorem sparing_enterCall {outer : FrameId} {parameters : List TypedName} {arguments : List Value}
    (inside : ∀ frame (later : Machine), later.heap.Grounds frame → (next frame).Sparing later) :
    ((liftM (Eval.enterCall notes outer parameters arguments) : Plan FrameId) >>= next).Sparing
      base := by
  refine sparing_entered (fun machine => ?_) inside
  exact ⟨_, Eval.enterCall_eq outer parameters arguments,
    Eval.spares_entered machine (some outer) _ _⟩

end Plan

namespace Clause

open Plan

variable {notes : Annotations} {frame : FrameId} {mark : Mark} {base : Machine}

section

variable (grounds : base.heap.Grounds frame)
include grounds

theorem sparing_expr (e : Expr) : (expr notes frame e).Sparing base := by
  have part : ∀ e : Expr, (run (.expr frame e)).Sparing base := fun e => sparing_inside rfl grounds
  have parts : ∀ es : List Expr, (run (.exprs frame es)).Sparing base :=
    fun es => sparing_inside rfl grounds
  have condition : ∀ e : Expr, (run (.condition frame e)).Sparing base :=
    fun e => sparing_inside rfl grounds
  cases e with
  | int _ _ | float _ _ | string _ _ | bool _ _ | null _ => exact sparing_pure _
  | symbol mark name => exact sparing_step Eval.sparing_symbol
  | constructor mark name => exact sparing_step Eval.sparing_constructor
  | create mark name => exact sparing_step Eval.sparing_create
  | array mark elements =>
    refine sparing_bind (parts elements) fun values => ?_
    exact sparing_bind (sparing_step (Eval.sparing_change fun heap => heap.spares_newRow _))
      fun _ => sparing_pure _
  | paren mark inner => exact part inner
  | unary mark op operand =>
    exact sparing_bind (part operand) fun _ => sparing_step (Eval.sparing_lift _ mark.span)
  | binary mark op left right =>
    simp only [expr]
    split
    · refine sparing_bind (condition left) fun holds => ?_
      cases holds with
      | false => exact sparing_pure _
      | true => exact sparing_bind (condition right) fun _ => sparing_pure _
    · refine sparing_bind (condition left) fun holds => ?_
      cases holds with
      | true => exact sparing_pure _
      | false => exact sparing_bind (condition right) fun _ => sparing_pure _
    · exact sparing_bind (part left) fun a => sparing_bind (part right) fun b =>
        sparing_step (Eval.sparing_binary _ a b)
  | assign mark target value => exact sparing_inside rfl grounds
  | call mark callee arguments =>
    exact sparing_bind (part callee) fun function => sparing_bind (parts arguments) fun values =>
      sparing_call rfl
  | index mark array index =>
    exact sparing_bind (part array) fun a => sparing_bind (part index) fun i =>
      sparing_step (Eval.sparing_readElement a i)
  | field mark receiver name =>
    exact sparing_bind (part receiver) fun value => sparing_step (Eval.sparing_readField value)
  | member mark receiver name =>
    exact sparing_bind (part receiver) fun value => sparing_step (Eval.sparing_readMember value)

theorem sparing_exprs (es : List Expr) : (exprs frame es).Sparing base := by
  cases es with
  | nil => exact sparing_pure _
  | cons e rest =>
    exact sparing_bind (sparing_inside rfl grounds) fun _ =>
      sparing_bind (sparing_inside rfl grounds) fun _ => sparing_pure _

theorem sparing_condition (e : Expr) : (condition frame e).Sparing base :=
  sparing_bind (sparing_inside rfl grounds) fun value =>
    sparing_step (Eval.sparing_expectBool value)

theorem sparing_assign (target e : Expr) : (assign notes frame mark target e).Sparing base := by
  have part : ∀ e : Expr, (run (.expr frame e)).Sparing base := fun e => sparing_inside rfl grounds
  cases target with
  | symbol place name =>
    refine sparing_bind (sparing_step (Eval.sparing_declNode place.id)) fun decl => ?_
    refine sparing_bind (part e) fun result => ?_
    have stores := fun heap : Heap => heap.spares_assign frame name decl
      (result.coerce (notes.typeOf? mark.id))
    refine sparing_bind (sparing_step (Eval.sparing_change stores)) fun stored => ?_
    cases stored with
    | ok _ => exact sparing_pure _
    | error error => exact sparing_step (Eval.sparing_slotError error)
  | index place array index =>
    refine sparing_bind (part array) fun a => sparing_bind (part index) fun i => ?_
    refine sparing_bind (part e) fun result => ?_
    exact sparing_bind (sparing_step (Eval.sparing_assignElement a i _)) fun _ => sparing_pure _
  | field place receiver name =>
    refine sparing_bind (part receiver) fun owner => sparing_bind (part e) fun result => ?_
    exact sparing_bind (sparing_step (Eval.sparing_assignField owner _)) fun _ => sparing_pure _
  | member place receiver name =>
    refine sparing_bind (part receiver) fun owner => sparing_bind (part e) fun result => ?_
    exact sparing_bind (sparing_step (Eval.sparing_assignMember owner _)) fun _ => sparing_pure _
  | _ => exact sparing_step (Eval.sparing_fault _ _)

end

/-! ### Calls -/

theorem sparing_call (callee : Value) (arguments : List Value) (span : Span) :
    (call callee arguments span).Sparing base := by
  cases callee with
  | function closure => exact Plan.sparing_call rfl
  | method receiver decl => exact Plan.sparing_call rfl
  | constructor cls => exact sparing_step (Eval.sparing_construct cls arguments)
  | builtin function => exact sparing_step (Eval.sparing_callBuiltin function arguments)
  | null => exact sparing_step (Eval.sparing_fail _ span)
  | _ => exact sparing_step (Eval.sparing_fault _ span)

theorem sparing_invoke (decl : FunctionDecl) (outer : FrameId) (arguments : List Value)
    (span : Span) : (invoke notes decl outer arguments span).Sparing base := by
  unfold invoke
  split
  · exact sparing_enterCall fun frame later grounds =>
      sparing_bind (sparing_inside rfl grounds) fun _ => sparing_pure _
  · exact sparing_step (Eval.sparing_fault _ span)

/-! ### Statements -/

theorem sparing_block (outer : FrameId) (b : Block) : (block notes outer b).Sparing base :=
  sparing_enter fun _ _ grounds => sparing_inside rfl grounds

section

variable (grounds : base.heap.Grounds frame)
include grounds

theorem sparing_sequence (body : List Stmt) : (sequence frame body).Sparing base := by
  cases body with
  | nil => exact sparing_pure _
  | cons s rest =>
    refine sparing_bind (sparing_inside rfl grounds) fun completion => ?_
    cases completion with
    | returned value => exact sparing_pure _
    | normal => exact sparing_inside rfl grounds

theorem sparing_varDecl (decl : VariableDecl) : (varDecl notes frame decl).Sparing base := by
  -- The frame is still on the ground when the value has been found.
  have define : ∀ value : Value,
      (do Eval.update (·.define frame decl.name (some decl.mark.id) value)
          return .normal : Plan Completion).Sparing base := by
    intro value machine spares
    refine ⟨Machine.spares_of_heap ?_, fun _ _ _ => trivial⟩
    exact (grounds.mono spares.toSpares).spares_names _
  unfold varDecl
  dsimp only
  split
  · exact sparing_bind (sparing_inside rfl grounds) fun _ => define _
  · exact sparing_bind (sparing_step (Eval.sparing_change fun heap => heap.spares_default _)) define
  · exact define _

theorem sparing_stmt (s : Stmt) : (stmt notes frame s).Sparing base := by
  cases s with
  | block b => exact sparing_inside rfl grounds
  | expression mark e => exact sparing_bind (sparing_inside rfl grounds) fun _ => sparing_pure _
  | var decl => exact sparing_varDecl grounds decl
  | function decl | struct decl | box decl => exact sparing_pure _
  | ifElse mark test thenBody elseBody =>
    refine sparing_bind (sparing_inside rfl grounds) fun holds => ?_
    cases holds with
    | true => exact sparing_inside rfl grounds
    | false =>
      cases elseBody with
      | none => exact sparing_pure _
      | some elseBody => exact sparing_inside rfl grounds
  | «while» mark test inner => exact sparing_inside rfl grounds
  | «return» mark value =>
    cases value with
    | none => exact sparing_pure _
    | some e => exact sparing_bind (sparing_inside rfl grounds) fun _ => sparing_pure _

theorem sparing_loop (test : Expr) (inner : Stmt) : (loop frame test inner).Sparing base := by
  refine sparing_bind (sparing_inside rfl grounds) fun holds => ?_
  cases holds with
  | false => exact sparing_pure _
  | true =>
    refine sparing_bind (sparing_inside rfl grounds) fun completion => ?_
    cases completion with
    | returned value => exact sparing_pure _
    | normal => exact sparing_inside rfl grounds

theorem sparing_body (s : Stmt) : (body notes frame s).Sparing base := by
  cases s with
  | block b => exact sparing_inside rfl grounds
  | _ => exact sparing_enter fun _ _ grounds => sparing_inside rfl grounds

end

end Clause

/-! ## Evaluation -/

/-- What a task comes to spares machines, if the task is in a frame on the ground. -/
theorem sparing_clause (notes : Annotations) {task : Task} {base : Machine}
    (grounded : task.Grounded base.heap) : (clause notes task).Sparing base := by
  cases task with
  | expr frame e => exact Clause.sparing_expr (grounded frame rfl) e
  | exprs frame es => exact Clause.sparing_exprs (grounded frame rfl) es
  | condition frame e => exact Clause.sparing_condition (grounded frame rfl) e
  | assign frame mark target value => exact Clause.sparing_assign (grounded frame rfl) target value
  | call callee arguments span => exact Clause.sparing_call callee arguments span
  | invoke decl outer arguments span => exact Clause.sparing_invoke decl outer arguments span
  | block outer b => exact Clause.sparing_block outer b
  | sequence frame body => exact Clause.sparing_sequence (grounded frame rfl) body
  | stmt frame s => exact Clause.sparing_stmt (grounded frame rfl) s
  | loop frame test inner => exact Clause.sparing_loop (grounded frame rfl) test inner
  | body outer s => exact Clause.sparing_body (grounded outer rfl) s

/-- Evaluation spares machines, however it ends. -/
theorem sparing_evaluate (notes : Annotations) (fuel : Nat) : (evaluate notes fuel).Sparing := by
  induction fuel with
  | zero => exact fun task machine _ => .refl machine
  | succ fuel ih =>
    exact fun task machine grounded => (sparing_clause notes grounded).follow ih (.refl machine)

/-- Statements that are entered in a frame on the ground spare machines. -/
theorem Eval.spares_statements (notes : Annotations) (fuel : Nat) {frame : FrameId}
    {machine : Machine} (grounds : machine.heap.Grounds frame) (body : List Stmt) :
    machine.Spares ((statements notes fuel frame body).left machine) := by
  have declares := spares_declareAll notes grounds body
  refine spares_bind declares fun result after ran => ?_
  rw [Eval.left, ran] at declares
  refine sparing_evaluate notes fuel (.sequence frame body) after fun home is => ?_
  cases is
  exact grounds.mono declares.toSpares

/-- The tasks that come up are in frames on the ground, if the first one is. -/
theorem grounded_of_visits {notes : Annotations} {fuel : Nat} {task : Task} {machine : Machine}
    (grounded : task.Grounded machine.heap) :
    ∀ visit ∈ visits notes fuel task machine, visit.task.Grounded visit.machine.heap := by
  intro visit visited
  induction fuel generalizing task machine with
  | zero =>
    cases List.mem_singleton.mp visited
    exact grounded
  | succ fuel ih =>
    rcases mem_visits_cases visited with rfl | ⟨less, asked, same, found, later⟩
    · exact grounded
    · cases same
      exact ih ((sparing_clause notes grounded).asked (sparing_evaluate notes fuel) (.refl machine)
        asked found) later

/-! ## Programs -/

namespace Eval

variable {notes : Annotations} {frame : FrameId}

theorem exists_builtinFrame (machine : Machine) :
    ∃ outer after, builtinFrame machine = .ok outer after :=
  ⟨_, _, builtinFrame_eq machine⟩

/-- A program starts in a frame on the ground. -/
theorem grounds_start (notes : Annotations) (p : Program) (machine : Machine) :
    ∃ root after, start notes p machine = .ok root after ∧ after.heap.Grounds root := by
  obtain ⟨outer, middle, made⟩ := exists_builtinFrame machine
  obtain ⟨entries, id, ran, _⟩ := enter_eq notes middle outer p.body
  refine ⟨_, _, ?_, (spares_entered middle (some outer) entries id).2⟩
  rw [start_eq, bind_ok made]
  exact ran

theorem grounds_of_start {p : Program} {machine after : Machine} {root : FrameId}
    (started : start notes p machine = .ok root after) : after.heap.Grounds root := by
  obtain ⟨_, _, ran, grounds⟩ := grounds_start notes p machine
  cases ran.symm.trans started
  exact grounds

/-- The statements of the top level spare machines on which the frame is on the ground. -/
theorem spares_toplevel (notes : Annotations) (fuel : Nat) {machine : Machine}
    (grounds : machine.heap.Grounds frame) (body : List Stmt) :
    machine.Spares ((do return (← evaluate notes fuel (.sequence frame body)).value :
      Eval Value).left machine) := by
  refine spares_bind ?_ fun completion last _ => .refl last
  refine sparing_evaluate notes fuel (.sequence frame body) machine fun home is => ?_
  cases is
  exact grounds

/-- Runs a program in a frame inside another one. -/
def programFrom (notes : Annotations) (fuel : Nat) (outer : FrameId) (p : Program) :
    Eval Value := do
  let root ← enter notes outer p.body
  return (← evaluate notes fuel (.sequence root p.body)).value

/-- A program runs inside the frame of the builtins. -/
theorem program_eq (notes : Annotations) (fuel : Nat) (p : Program) :
    program notes fuel p = builtinFrame >>= fun outer => programFrom notes fuel outer p := by
  rw [program, start_eq, bind_assoc]
  rfl

theorem sparing_programFrom (notes : Annotations) (fuel : Nat) (outer : FrameId) (p : Program) :
    Sparing (programFrom notes fuel outer p) := by
  intro machine
  obtain ⟨entries, id, ran, _⟩ := enter_eq notes machine outer p.body
  obtain ⟨spares, grounds⟩ := spares_entered machine (some outer) entries id
  have left : (enter notes outer p.body).left machine =
      entered machine (some outer) entries id := by
    rw [Eval.left, ran]
  refine spares_bind (left.symm ▸ spares) fun root after same => ?_
  cases ran.symm.trans same
  exact spares_toplevel notes fuel grounds p.body

end Eval

/-- The tasks that a program comes by are in frames on the ground. -/
theorem Program.grounded_at_visits {program : Program} {notes : Annotations} {fuel : Nat}
    {machine : Machine} :
    ∀ visit ∈ program.visits notes fuel machine, visit.task.Grounded visit.machine.heap := by
  intro visit visited
  obtain ⟨root, after, started, grounds⟩ := Eval.grounds_start notes program machine
  rw [visits, started] at visited
  refine grounded_of_visits (fun frame is => ?_) visit visited
  cases is
  exact grounds

end BoxScript
