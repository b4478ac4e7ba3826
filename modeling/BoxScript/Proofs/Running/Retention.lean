import BoxScript.Proofs.Running.References
import BoxScript.Proofs.Running.Keeping

/-!
# Evaluation keeps values

No task takes away the value of a slot, and the only tasks that complain of a variable without a
value are those that read or replace the value of a name (`keeps_clause`). So a run that ends with
such a complaint has come by a task that names the variable (`visit_of_missing`). Most tasks ask
only for tasks in their own frame, about nodes of their own (`Task.Within`); those that do not make
a frame or run statements one after another (`Task.moves`).
-/

set_option autoImplicit false

namespace BoxScript

/-! ## Operators -/

namespace Value

theorem unary_ne_uninitialised (op : PrefixOp) (operand : Value) (name : String) :
    operand.unary op ≠ .error (.uninitialised name) := by
  unfold unary
  split <;> simp

theorem intBinary_ne_uninitialised (op : BinaryOp) (a b : Int64) (name : String) :
    intBinary op a b ≠ .error (.uninitialised name) := by
  cases op with
  | divide | remainder =>
    simp only [intBinary]
    split <;> simp
  | _ => simp [intBinary]

theorem floatBinary_ne_uninitialised (op : BinaryOp) (a b : Float) (name : String) :
    floatBinary op a b ≠ .error (.uninitialised name) := by
  cases op <;> simp [floatBinary]

theorem binary_ne_uninitialised (op : BinaryOp) (left right : Value) (name : String) :
    left.binary op right ≠ .error (.uninitialised name) := by
  unfold binary
  split
  · simp
  · simp
  · split
    · exact intBinary_ne_uninitialised op _ _ name
    · exact floatBinary_ne_uninitialised op _ _ name
    · exact floatBinary_ne_uninitialised op _ _ name
    · exact floatBinary_ne_uninitialised op _ _ name
    · simp

end Value

/-! ## Parts of expressions -/

namespace Eval

variable {notes : Annotations} {blames : String → Span → Prop} {frame : FrameId} {mark : Mark}
  {name : String} {span : Span}

theorem keeps_declNode (node : NodeId) : Keeps blames (declNode notes node name span) := by
  unfold declNode
  split
  · exact keeps_pure _
  · exact keeps_fault _ span

theorem keeps_slotError {α : Type} (error : SlotError) (blamed : blames name span) :
    Keeps blames (slotError error name span : Eval α) := by
  cases error with
  | unbound => exact keeps_fault _ span
  | uninitialised =>
    refine keeps_fail fun other same => ?_
    cases same
    exact blamed

theorem keeps_bindMethod (receiver : FrameId) : Keeps blames (bindMethod receiver name span) := by
  refine keeps_bind (keeps_inspect _) fun found => ?_
  cases found with
  | some decl => exact keeps_pure _
  | none => exact keeps_fault _ span

theorem keeps_read (blamed : blames name mark.span) :
    Keeps blames (read notes frame mark name) := by
  refine keeps_bind (keeps_declNode mark.id) fun decl => ?_
  refine keeps_bind (keeps_inspect _) fun found => ?_
  cases found with
  | ok value => exact keeps_pure value
  | error error => exact keeps_slotError error blamed

/-- A name that means a method has no value to lack. -/
theorem keeps_symbol_of_method (method : isMethod notes mark.id = true) :
    Keeps blames (symbol notes frame mark name) := by
  rw [symbol, if_pos method]
  refine keeps_bind (keeps_inspect _) fun receiver => ?_
  cases receiver with
  | some receiver => exact keeps_bindMethod receiver
  | none => exact keeps_fault _ mark.span

theorem keeps_symbol (blamed : blames name mark.span) :
    Keeps blames (symbol notes frame mark name) := by
  by_cases method : isMethod notes mark.id = true
  · exact keeps_symbol_of_method method
  · rw [symbol, if_neg method]
    exact keeps_read blamed

theorem keeps_typeNamed (blamed : blames name mark.span) :
    Keeps blames (typeNamed notes frame mark name) := by
  refine keeps_bind (keeps_read blamed) fun value => ?_
  cases value with
  | type value => exact keeps_pure value
  | _ => exact keeps_fault _ mark.span

theorem keeps_constructor (blamed : blames name mark.span) :
    Keeps blames (constructor notes frame mark name) := by
  refine keeps_bind (keeps_typeNamed blamed) fun value => ?_
  cases value with
  | struct cls => exact keeps_pure _
  | _ => exact keeps_fault _ mark.span

theorem keeps_create (blamed : blames name mark.span) :
    Keeps blames (create notes frame mark name) := by
  refine keeps_bind (keeps_typeNamed blamed) fun value => ?_
  cases value with
  | box cls =>
    exact keeps_bind (keeps_change fun heap => heap.keeps_newInstance cls) fun _ => keeps_pure _
  | _ => exact keeps_fault _ mark.span

theorem keeps_expectBool (value : Value) : Keeps blames (expectBool value span) := by
  cases value with
  | bool value => exact keeps_pure value
  | _ => exact keeps_fault _ span

theorem keeps_expectIndex (value : Value) (length : Nat) :
    Keeps blames (expectIndex value length span) := by
  cases value with
  | int index =>
    unfold expectIndex
    dsimp only
    split
    · exact keeps_pure _
    · exact keeps_fail (by simp)
  | _ => exact keeps_fault _ span

theorem keeps_expectArray (value : Value) (use : Use) :
    Keeps blames (expectArray value use span) := by
  cases value with
  | array row => exact keeps_pure row
  | null => exact keeps_fail (by simp)
  | _ => exact keeps_fault _ span

theorem keeps_readElement (array index : Value) : Keeps blames (readElement array index span) :=
  keeps_bind (keeps_expectArray array .indexing) fun _ =>
    keeps_bind (keeps_inspect _) fun elements =>
      keeps_bind (keeps_expectIndex index elements.size) fun _ => keeps_pure _

theorem keeps_assignElement (array index value : Value) :
    Keeps blames (assignElement array index value span) :=
  keeps_bind (keeps_expectArray array .assigningElement) fun _ =>
    keeps_bind (keeps_inspect _) fun length =>
      keeps_bind (keeps_expectIndex index length) fun _ =>
        keeps_update fun _ => Heap.keeps_of_frames rfl

theorem keeps_readField (receiver : Value) : Keeps blames (readField receiver name span) := by
  unfold readField
  split
  · exact keeps_bind (keeps_inspect _) fun _ => keeps_pure _
  · refine keeps_bind (keeps_inspect _) fun fields => ?_
    split
    · exact keeps_pure _
    · exact keeps_fault _ span
  · exact keeps_fail (by simp)
  · exact keeps_fault _ span

theorem keeps_assignField (receiver : Value) (value : Value) :
    Keeps blames (assignField receiver name value span) := by
  unfold assignField
  split
  · split
    · exact keeps_update fun _ => Heap.keeps_of_frames rfl
    · exact keeps_fault _ span
  · exact keeps_fail (by simp)
  · exact keeps_fault _ span

theorem keeps_readMember (receiver : Value) :
    Keeps blames (readMember notes mark receiver name) := by
  unfold readMember
  split
  · split
    · exact keeps_bindMethod _
    · refine keeps_bind (keeps_inspect _) fun found => ?_
      cases found with
      | some value => exact keeps_pure value
      | none => exact keeps_fault _ mark.span
  · exact keeps_fail (by simp)
  · exact keeps_fault _ mark.span

theorem keeps_assignMember (receiver : Value) (value : Value) :
    Keeps blames (assignMember receiver name value span) := by
  unfold assignMember
  split
  · rename_i frame
    refine keeps_bind (keeps_change fun heap => heap.keeps_assignLocal frame name value) ?_
    intro had
    cases had with
    | true => exact keeps_pure ()
    | false => exact keeps_fault _ span
  · exact keeps_fail (by simp)
  · exact keeps_fault _ span

theorem keeps_construct (cls : StructClass) (arguments : List Value) :
    Keeps blames (construct cls arguments) :=
  keeps_bind (keeps_change fun _ => Heap.keeps_of_frames rfl) fun _ => keeps_pure _

theorem keeps_callBuiltin (function : Builtin) (arguments : List Value) :
    Keeps blames (callBuiltin function arguments span) := by
  unfold callBuiltin
  split
  · exact keeps_bind (keeps_textOf _) fun text =>
      keeps_bind (keeps_writeLine text span) fun _ => keeps_pure _
  · exact keeps_fault _ span

theorem keeps_binary (op : BinaryOp) (left right : Value) :
    Keeps blames (binary notes mark op left right) := by
  unfold binary
  split
  · exact keeps_bind (keeps_textOf left) fun _ =>
      keeps_bind (keeps_textOf right) fun _ => keeps_pure _
  · exact keeps_lift (Value.binary_ne_uninitialised _ left right)

/-! ## Entering -/

theorem keeps_entered (machine : Machine) (parent : Option FrameId)
    (entries : List (String × Binding)) (id : Nat) :
    machine.heap.Keeps (entered machine parent entries id).heap :=
  (machine.heap.keeps_newFrame _).trans (Heap.keeps_of_frames rfl)

theorem keeps_enter (outer : FrameId) (body : List Stmt) :
    Keeps blames (enter notes outer body) := by
  intro machine
  obtain ⟨entries, id, ran, _⟩ := enter_eq notes machine outer body
  rw [ran]
  exact keeps_entered machine (some outer) entries id

theorem keeps_enterCall (outer : FrameId) (parameters : List TypedName) (arguments : List Value) :
    Keeps blames (enterCall notes outer parameters arguments) := by
  intro machine
  rw [enterCall_eq]
  exact keeps_entered machine (some outer) _ _

end Eval

/-! ## Where tasks are -/

/-- Where a task goes on: in which frame, about which nodes, and which statements are still to run
one after another. -/
structure Task.Site where
  frame : FrameId
  nodes : List Node
  coming : List Stmt

namespace Task

/-- The site of a task. A call has none: what it runs lies in a frame that is still to be made. -/
def site? : Task → Option Site
  | .expr frame e => some ⟨frame, e.nodes, []⟩
  | .exprs frame es => some ⟨frame, Expr.nodesOfAll es, []⟩
  | .condition frame e => some ⟨frame, e.nodes, []⟩
  | .assign frame _ target value => some ⟨frame, target.nodes ++ value.nodes, []⟩
  | .call _ _ _ | .invoke _ _ _ _ => none
  | .block outer b => some ⟨outer, b.nodes, []⟩
  | .sequence frame statements => some ⟨frame, Stmt.nodesOfAll statements, statements⟩
  | .stmt frame s => some ⟨frame, s.nodes, []⟩
  | .loop frame test inner => some ⟨frame, test.nodes ++ inner.nodes, []⟩
  | .body outer s => some ⟨outer, s.nodes, []⟩

/-- Whether a task is at the site of another one, about some of its nodes. -/
def Within (outer inner : Task) : Prop :=
  ∀ site, inner.site? = some site →
    ∃ around, outer.site? = some around ∧ site.frame = around.frame ∧ site.nodes ⊆ around.nodes

/-- Whether a task makes a frame, or runs statements one after another. -/
def moves : Task → Bool
  | .body _ (.block _) => false
  | .invoke _ _ _ _ | .block _ _ | .sequence _ _ | .body _ _ => true
  | _ => false

/-- Whether a task may ask for another one. -/
def Leads (outer inner : Task) : Prop := outer.moves = true ∨ outer.Within inner

/-- The name whose value a task reads or replaces. -/
def subject? : Task → Option (Mark × String)
  | .expr _ e => e.reference?
  | .assign _ _ (.symbol mark name) _ => some (mark, name)
  | _ => none

/-- Whether a task may complain of a variable that has no value. -/
def Blames (task : Task) (name : String) (span : Span) : Prop :=
  ∃ mark, task.subject? = some (mark, name) ∧ mark.span = span

variable {outer inner : Task}

theorem leads_part {frame : FrameId} {nodes more : List Node} {coming others : List Stmt}
    (inside : inner.site? = some ⟨frame, nodes, others⟩)
    (around : outer.site? = some ⟨frame, more, coming⟩) (part : nodes ⊆ more) :
    outer.Leads inner := by
  refine .inr fun site is => ?_
  rw [inside] at is
  cases is
  exact ⟨_, around, rfl, part⟩

theorem leads_call (outer : Task) (callee : Value) (arguments : List Value) (span : Span) :
    outer.Leads (.call callee arguments span) :=
  .inr fun _ none => absurd none (by simp [site?])

theorem leads_invoke (outer : Task) (decl : FunctionDecl) (frame : FrameId)
    (arguments : List Value) (span : Span) : outer.Leads (.invoke decl frame arguments span) :=
  .inr fun _ none => absurd none (by simp [site?])

end Task

namespace Plan

/-- Whether a plan keeps values, complains only of the name that a task is about, and asks only for
what the task may ask for. -/
abbrev Serves {α : Type} (plan : Plan α) (task : Task) : Prop :=
  plan.Keeps task.Leads task.Blames

/-- A task at the site of another one. -/
theorem serves_part {outer inner : Task} {frame : FrameId} {nodes more : List Node}
    {coming others : List Stmt} (inside : inner.site? = some ⟨frame, nodes, others⟩)
    (around : outer.site? = some ⟨frame, more, coming⟩) (part : nodes ⊆ more) :
    (run inner).Serves outer :=
  keeps_run (Task.leads_part inside around part)

end Plan

namespace Clause

open Plan

variable {notes : Annotations} {frame : FrameId} {mark : Mark}

/-! ## Expressions -/

theorem serves_expr (e : Expr) : (expr notes frame e).Serves (.expr frame e) := by
  cases e with
  | int _ _ | float _ _ | string _ _ | bool _ _ | null _ => exact keeps_pure _
  | symbol mark name => exact keeps_step (Eval.keeps_symbol ⟨mark, rfl, rfl⟩)
  | constructor mark name => exact keeps_step (Eval.keeps_constructor ⟨mark, rfl, rfl⟩)
  | create mark name => exact keeps_step (Eval.keeps_create ⟨mark, rfl, rfl⟩)
  | array mark elements =>
    refine keeps_bind (serves_part rfl rfl (by simp [Expr.nodes])) fun values => ?_
    exact keeps_bind (keeps_step (Eval.keeps_change fun _ => Heap.keeps_of_frames rfl))
      fun _ => keeps_pure _
  | paren mark inner => exact serves_part rfl rfl (by simp [Expr.nodes])
  | unary mark op operand =>
    refine keeps_bind (serves_part rfl rfl (by simp [Expr.nodes])) fun value => ?_
    exact keeps_step (Eval.keeps_lift (Value.unary_ne_uninitialised op value))
  | binary mark op left right =>
    have leftPart : left.nodes ⊆ (Expr.binary mark op left right).nodes := by simp [Expr.nodes]
    have rightPart : right.nodes ⊆ (Expr.binary mark op left right).nodes := by simp [Expr.nodes]
    simp only [expr]
    split
    · refine keeps_bind (serves_part rfl rfl leftPart) fun holds => ?_
      cases holds with
      | false => exact keeps_pure _
      | true =>
        exact keeps_bind (serves_part rfl rfl rightPart) fun _ => keeps_pure _
    · refine keeps_bind (serves_part rfl rfl leftPart) fun holds => ?_
      cases holds with
      | true => exact keeps_pure _
      | false =>
        exact keeps_bind (serves_part rfl rfl rightPart) fun _ => keeps_pure _
    · refine keeps_bind (serves_part rfl rfl leftPart) fun a => ?_
      refine keeps_bind (serves_part rfl rfl rightPart) fun b => ?_
      exact keeps_step (Eval.keeps_binary _ a b)
  | assign mark target value =>
    refine serves_part rfl rfl ?_
    have bare := target.nodes_bare_subset
    intro node member
    simp only [Expr.nodes, List.mem_append] at member ⊢
    exact .inl (member.imp_left fun here => bare here)
  | call mark callee arguments =>
    refine keeps_bind (serves_part rfl rfl (by simp [Expr.nodes])) fun function => ?_
    refine keeps_bind (serves_part rfl rfl (by simp [Expr.nodes])) fun values => ?_
    exact keeps_run (Task.leads_call _ function values mark.span)
  | index mark array index =>
    refine keeps_bind (serves_part rfl rfl (by simp [Expr.nodes])) fun a => ?_
    refine keeps_bind (serves_part rfl rfl (by simp [Expr.nodes])) fun i => ?_
    exact keeps_step (Eval.keeps_readElement a i)
  | field mark receiver name =>
    refine keeps_bind (serves_part rfl rfl (by simp [Expr.nodes])) fun value => ?_
    exact keeps_step (Eval.keeps_readField value)
  | member mark receiver name =>
    refine keeps_bind (serves_part rfl rfl (by simp [Expr.nodes])) fun value => ?_
    exact keeps_step (Eval.keeps_readMember value)

theorem serves_exprs (es : List Expr) : (exprs frame es).Serves (.exprs frame es) := by
  cases es with
  | nil => exact keeps_pure _
  | cons e rest =>
    refine keeps_bind (serves_part rfl rfl (by simp [Expr.nodesOfAll])) fun value => ?_
    refine keeps_bind (serves_part rfl rfl (by simp [Expr.nodesOfAll])) fun values => ?_
    exact keeps_pure _

theorem serves_condition (e : Expr) : (condition frame e).Serves (.condition frame e) :=
  keeps_bind (serves_part rfl rfl (List.Subset.refl _)) fun value =>
    keeps_step (Eval.keeps_expectBool value)

theorem serves_assign (target value : Expr) :
    (assign notes frame mark target value).Serves (.assign frame mark target value) := by
  have evaluated : ∀ e : Expr, e.nodes ⊆ target.nodes ++ value.nodes →
      (run (.expr frame e)).Serves (.assign frame mark target value) :=
    fun e part => serves_part rfl rfl part
  have last := evaluated value (by simp)
  cases target with
  | symbol place name =>
    refine keeps_bind (keeps_step (Eval.keeps_declNode place.id)) fun decl => ?_
    refine keeps_bind last fun result => ?_
    have stores := fun heap : Heap => heap.keeps_assign frame name decl
      (result.coerce (notes.typeOf? mark.id))
    refine keeps_bind (keeps_step (Eval.keeps_change stores)) fun stored => ?_
    cases stored with
    | ok _ => exact keeps_pure _
    | error error => exact keeps_step (Eval.keeps_slotError error ⟨place, rfl, rfl⟩)
  | index place array index =>
    refine keeps_bind (evaluated array (by simp [Expr.nodes])) fun a => ?_
    refine keeps_bind (evaluated index (by simp [Expr.nodes])) fun i => ?_
    refine keeps_bind last fun result => ?_
    exact keeps_bind (keeps_step (Eval.keeps_assignElement a i _)) fun _ => keeps_pure _
  | field place receiver name =>
    refine keeps_bind (evaluated receiver (by simp [Expr.nodes])) fun owner => ?_
    refine keeps_bind last fun result => ?_
    exact keeps_bind (keeps_step (Eval.keeps_assignField owner _)) fun _ => keeps_pure _
  | member place receiver name =>
    refine keeps_bind (evaluated receiver (by simp [Expr.nodes])) fun owner => ?_
    refine keeps_bind last fun result => ?_
    exact keeps_bind (keeps_step (Eval.keeps_assignMember owner _)) fun _ => keeps_pure _
  | _ => exact keeps_step (Eval.keeps_fault _ _)

/-! ## Calls -/

theorem serves_call (callee : Value) (arguments : List Value) (span : Span) :
    (call callee arguments span).Serves (.call callee arguments span) := by
  cases callee with
  | function closure =>
    exact keeps_run (Task.leads_invoke _ closure.decl closure.frame arguments span)
  | method receiver decl => exact keeps_run (Task.leads_invoke _ decl receiver arguments span)
  | constructor cls => exact keeps_step (Eval.keeps_construct cls arguments)
  | builtin function => exact keeps_step (Eval.keeps_callBuiltin function arguments)
  | null => exact keeps_step (Eval.keeps_fail (by simp))
  | _ => exact keeps_step (Eval.keeps_fault _ span)

theorem serves_invoke (decl : FunctionDecl) (outer : FrameId) (arguments : List Value)
    (span : Span) :
    (invoke notes decl outer arguments span).Serves (.invoke decl outer arguments span) := by
  unfold invoke
  split
  · refine keeps_bind (keeps_step (Eval.keeps_enterCall outer _ arguments)) fun frame => ?_
    exact keeps_bind (keeps_run (.inl rfl)) fun _ => keeps_pure _
  · exact keeps_step (Eval.keeps_fault _ span)

/-! ## Statements -/

theorem serves_block (outer : FrameId) (b : Block) :
    (block notes outer b).Serves (.block outer b) :=
  keeps_bind (keeps_step (Eval.keeps_enter outer b.body)) fun _ => keeps_run (.inl rfl)

theorem serves_sequence (body : List Stmt) :
    (sequence frame body).Serves (.sequence frame body) := by
  cases body with
  | nil => exact keeps_pure _
  | cons s rest =>
    refine keeps_bind (keeps_run (.inl rfl)) fun completion => ?_
    cases completion with
    | returned value => exact keeps_pure _
    | normal => exact keeps_run (.inl rfl)

theorem serves_varDecl (decl : VariableDecl) :
    (varDecl notes frame decl).Serves (.stmt frame (.var decl)) := by
  have define : ∀ value : Value,
      (do Eval.update (·.define frame decl.name (some decl.mark.id) value)
          return .normal : Plan Completion).Serves (.stmt frame (.var decl)) :=
    fun value => keeps_bind
      (keeps_step (Eval.keeps_update fun heap => heap.keeps_define frame _ _ value))
      fun _ => keeps_pure _
  have initial : ∀ e, decl.value = some e → e.nodes ⊆ (Stmt.var decl).nodes := by
    obtain ⟨_, _, form⟩ := decl
    rintro e is
    cases form with
    | inferred value =>
      cases is
      simp [Stmt.nodes, VariableForm.nodes]
    | typed type value =>
      cases is
      simp [Stmt.nodes, VariableForm.nodes]
  unfold varDecl
  dsimp only
  split
  · rename_i e is
    exact keeps_bind (serves_part rfl rfl (initial e is)) fun _ => define _
  · rename_i ty _ _
    exact keeps_bind (keeps_step (Eval.keeps_change fun heap => heap.keeps_default ty)) define
  · exact define _

theorem serves_stmt (s : Stmt) : (stmt notes frame s).Serves (.stmt frame s) := by
  cases s with
  | block b => exact serves_part rfl rfl (by simp [Stmt.nodes])
  | expression mark e =>
    exact keeps_bind (serves_part rfl rfl (by simp [Stmt.nodes])) fun _ => keeps_pure _
  | var decl => exact serves_varDecl decl
  | function decl | struct decl | box decl => exact keeps_pure _
  | ifElse mark test thenBody elseBody =>
    cases elseBody with
    | none =>
      refine keeps_bind (serves_part rfl rfl (by simp [Stmt.nodes])) fun holds => ?_
      cases holds with
      | true => exact serves_part rfl rfl (by simp [Stmt.nodes])
      | false => exact keeps_pure _
    | some elseBody =>
      refine keeps_bind (serves_part rfl rfl (by simp [Stmt.nodes])) fun holds => ?_
      cases holds with
      | true => exact serves_part rfl rfl (by simp [Stmt.nodes])
      | false =>
        refine serves_part rfl rfl fun node member => ?_
        simp [Stmt.nodes, member]
  | «while» mark test inner => exact serves_part rfl rfl (by simp [Stmt.nodes])
  | «return» mark value =>
    cases value with
    | none => exact keeps_pure _
    | some e =>
      exact keeps_bind (serves_part rfl rfl (by simp [Stmt.nodes])) fun _ =>
        keeps_pure _

theorem serves_loop (test : Expr) (inner : Stmt) :
    (loop frame test inner).Serves (.loop frame test inner) := by
  refine keeps_bind (serves_part rfl rfl (by simp)) fun holds => ?_
  cases holds with
  | false => exact keeps_pure _
  | true =>
    refine keeps_bind (serves_part rfl rfl (by simp)) fun completion => ?_
    cases completion with
    | returned value => exact keeps_pure _
    | normal => exact serves_part rfl rfl (List.Subset.refl _)

theorem serves_body (outer : FrameId) (s : Stmt) :
    (body notes outer s).Serves (.body outer s) := by
  cases s with
  | block b => exact serves_part rfl rfl (by simp [Stmt.nodes])
  | _ => exact keeps_bind (keeps_step (Eval.keeps_enter outer _)) fun _ => keeps_run (.inl rfl)

end Clause

/-! ## Evaluation -/

/-- What a task comes to keeps values, and complains only of the name that the task is about. -/
theorem keeps_clause (notes : Annotations) (task : Task) :
    (clause notes task).Keeps task.Leads task.Blames := by
  cases task with
  | expr frame e => exact Clause.serves_expr e
  | exprs frame es => exact Clause.serves_exprs es
  | condition frame e => exact Clause.serves_condition e
  | assign frame mark target value => exact Clause.serves_assign target value
  | call callee arguments span => exact Clause.serves_call callee arguments span
  | invoke decl outer arguments span => exact Clause.serves_invoke decl outer arguments span
  | block outer b => exact Clause.serves_block outer b
  | sequence frame body => exact Clause.serves_sequence body
  | stmt frame s => exact Clause.serves_stmt s
  | loop frame test inner => exact Clause.serves_loop test inner
  | body outer s => exact Clause.serves_body outer s

theorem keeps_evaluate (notes : Annotations) (fuel : Nat) : (evaluate notes fuel).Keeps := by
  induction fuel with
  | zero => rintro task machine result after ⟨⟩
  | succ fuel ih =>
    exact fun task machine result after ran => (keeps_clause notes task).follow ih ran

/-- A complaint of a variable that ends an evaluation was raised by a task that is about the
variable, and by none of those that this task asked for. -/
theorem visit_of_missing {notes : Annotations} {fuel : Nat} {task : Task} {machine after : Machine}
    {halt : Halt} (ended : evaluate notes fuel task machine = .error halt after) {name : String}
    {span : Span} (missing : halt.missing? = some (name, span)) :
    ∃ visit ∈ visits notes fuel task machine, visit.task.Blames name span ∧
      ∃ less, evaluate notes (less + 1) visit.task visit.machine = .error halt after ∧
        ∀ asked ∈ (clause notes visit.task).asked (evaluate notes less) visit.machine,
          evaluate notes less asked.task asked.machine ≠ .error halt after := by
  induction fuel generalizing task machine with
  | zero =>
    cases ended
    cases missing
  | succ fuel ih =>
    by_cases inner : ∃ asked ∈ (clause notes task).asked (evaluate notes fuel) machine,
        evaluate notes fuel asked.task asked.machine = .error halt after
    · obtain ⟨asked, found, endedToo⟩ := inner
      obtain ⟨visit, visited, rest⟩ := ih endedToo
      exact ⟨visit, List.mem_cons_of_mem _ (List.mem_flatMap.mpr ⟨asked, found, visited⟩), rest⟩
    · have none := fun asked found same => inner ⟨asked, found, same⟩
      refine ⟨⟨task, machine⟩, List.mem_cons_self, ?_, fuel, ended, none⟩
      exact ((keeps_clause notes task).missing ended missing).resolve_right inner

end BoxScript
