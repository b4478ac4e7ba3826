import BoxScript.Proofs.Running.Provenance

/-!
# Runs that are on a ledger

Each task goes from what is on a ledger to what is on it, if the ledger has what the tasks inside
it add (`Passage.stays_of_covers`). Most clauses add nothing (`derives_clause`). The others are
entered, or make an instance of a box: they add a frame, and the entering of statements adds the
functions and boxes that are declared in them.
-/

set_option autoImplicit false

namespace BoxScript

variable {ledger : Ledger}

/-! ## Tasks -/

/-- Whether a value is called in order to run the body of a function inside a frame. -/
def Value.Calls (decl : FunctionDecl) (outer : FrameId) : Value → Prop
  | function closure => closure.decl = decl ∧ closure.frame = outer
  | method receiver called => called = decl ∧ receiver = outer
  | _ => False

namespace Task

/-- What a task begins: a block, a call, or an instance of a box. -/
def begins? : Task → Option ScopeKind
  | .body _ (.block _) => none
  | .block _ _ | .body _ _ => some .block
  | .invoke _ _ _ _ => some .function
  | .expr _ (.create _ _) => some .box
  | _ => none

/-- Whether the values that a task is about are on a ledger. Bodies of functions are not looked at:
only calls ask for them. -/
def Derived (ledger : Ledger) : Task → Prop
  | .call callee arguments _ =>
    callee.Derived ledger ∧ ∀ value ∈ arguments, value.Derived ledger
  | .invoke _ _ _ _ => False
  | _ => True

/-- Whether a result of a task is on a ledger. -/
def Gives (ledger : Ledger) : (task : Task) → task.Result → Prop
  | .expr _ _, value | .assign _ _ _ _, value | .call _ _ _, value | .invoke _ _ _ _, value =>
    value.Derived ledger
  | .exprs _ _, values => ∀ value ∈ values, value.Derived ledger
  | .condition _ _, _ => True
  | .block _ _, completion | .sequence _ _, completion | .stmt _ _, completion
  | .loop _ _ _, completion | .body _ _, completion => completion.Derived ledger

end Task

/-- Whether an evaluator goes from a task to what is on a ledger. -/
def Visit.Gives (ledger : Ledger) (evaluator : Evaluator) (visit : Visit) : Prop :=
  ∀ result after, evaluator visit.task visit.machine = .ok result after →
    after.heap.Derived ledger ∧ visit.task.Gives ledger result

/-! ## Plans -/

namespace Plan

variable {α β : Type} {post : α → Prop} {base : Machine}

/-- A plan that goes from what is on a ledger to what is on it. -/
def Derives (ledger : Ledger) : Plan α → (α → Prop) → Prop
  | done result, post => post result
  | act step next, post => Eval.Derives ledger step fun result => (next result).Derives ledger post
  | ask task next, post => task.Derived ledger ∧
    ∀ result, task.Gives ledger result → (next result).Derives ledger post

theorem derives_pure {result : α} (holds : post result) :
    (pure result : Plan α).Derives ledger post :=
  holds

theorem derives_bind {plan : Plan β} {next : β → Plan α} {middle : β → Prop}
    (first : plan.Derives ledger middle)
    (second : ∀ result, middle result → (next result).Derives ledger post) :
    (plan >>= next).Derives ledger post := by
  induction plan with
  | done result => exact second result first
  | act step rest ih =>
    intro machine result after derived ran
    obtain ⟨derivedAfter, later⟩ := first machine result after derived ran
    exact ⟨derivedAfter, ih result later⟩
  | ask task rest ih => exact ⟨first.1, fun result gives => ih result (first.2 result gives)⟩

theorem derives_step {step : Eval α} (derives : Eval.Derives ledger step post) :
    (liftM step : Plan α).Derives ledger post :=
  derives

theorem derives_run {task : Task} (derived : task.Derived ledger) :
    (run task).Derives ledger (task.Gives ledger) :=
  ⟨derived, fun _ => id⟩

/-- What a plan asks for and comes to is on the ledger, if this holds of what it asks for. -/
theorem Derives.follow {plan : Plan α} (derives : plan.Derives ledger post)
    {evaluator : Evaluator} {machine : Machine} (derived : machine.heap.Derived ledger)
    (gives : ∀ visit ∈ plan.asked evaluator machine, visit.machine.heap.Derived ledger →
      visit.task.Derived ledger → visit.Gives ledger evaluator) :
    (∀ visit ∈ plan.asked evaluator machine,
      visit.machine.heap.Derived ledger ∧ visit.task.Derived ledger) ∧
    ∀ result after, plan.follow evaluator machine = .ok result after →
      after.heap.Derived ledger ∧ post result := by
  induction plan generalizing machine with
  | done result =>
    refine ⟨List.forall_mem_nil _, fun found after ran => ?_⟩
    cases ran
    exact ⟨derived, derives⟩
  | act step next ih =>
    rw [asked] at gives ⊢
    cases ran : step machine with
    | error halt after =>
      refine ⟨List.forall_mem_nil _, fun found last whole => ?_⟩
      obtain ⟨_, _, ranFirst, _⟩ := Eval.exists_of_bind_ok whole
      cases ran.symm.trans ranFirst
    | ok result after =>
      rw [ran] at gives
      obtain ⟨derivedAfter, rest⟩ := derives machine result after derived ran
      obtain ⟨inside, ends⟩ := ih result rest derivedAfter gives
      refine ⟨inside, fun found last whole => ?_⟩
      obtain ⟨_, _, ranFirst, ranRest⟩ := Eval.exists_of_bind_ok whole
      cases ran.symm.trans ranFirst
      exact ends found last ranRest
  | ask task next ih =>
    rw [asked] at gives ⊢
    have own := gives ⟨task, machine⟩ List.mem_cons_self derived derives.1
    cases ran : evaluator task machine with
    | error halt after =>
      rw [ran] at gives
      refine ⟨List.forall_mem_singleton.mpr ⟨derived, derives.1⟩, fun found last whole => ?_⟩
      obtain ⟨_, _, ranFirst, _⟩ := Eval.exists_of_bind_ok whole
      cases ran.symm.trans ranFirst
    | ok result after =>
      rw [ran] at gives
      obtain ⟨derivedAfter, given⟩ := own result after ran
      obtain ⟨inside, ends⟩ := ih result (derives.2 result given) derivedAfter
        fun visit found => gives visit (List.mem_cons_of_mem _ found)
      refine ⟨List.forall_mem_cons.mpr ⟨⟨derived, derives.1⟩, inside⟩, fun found last whole => ?_⟩
      obtain ⟨_, _, ranFirst, ranRest⟩ := Eval.exists_of_bind_ok whole
      cases ran.symm.trans ranFirst
      exact ends found last ranRest

section Entering

variable {step : Eval β} {task : β → Task} {ends : (result : β) → (task result).Result → α}
  {evaluator : Evaluator} {between : Machine} {middle : β} (ran : step base = .ok middle between)

include ran

/-- A plan that takes one step asks for one task. -/
theorem asked_act_ask :
    (act step fun result => ask (task result) fun answer => done (ends result answer)).asked
      evaluator base = [⟨task middle, between⟩] := by
  simp only [asked, ran]
  split <;> rfl

theorem of_follow_act_ask {result : α} {last : Machine}
    (whole : (act step fun result =>
        ask (task result) fun answer => done (ends result answer)).follow evaluator base =
      .ok result last) :
    ∃ answer, evaluator (task middle) between = .ok answer last ∧ ends middle answer = result := by
  obtain ⟨found, after, ranFirst, ranRest⟩ := Eval.exists_of_bind_ok whole
  cases ran.symm.trans ranFirst
  obtain ⟨answer, final, evaluated, ended⟩ := Eval.exists_of_bind_ok ranRest
  cases ended
  exact ⟨answer, evaluated, rfl⟩

end Entering

end Plan

/-! ## Clauses that add nothing -/

namespace Clause

open Plan

variable {notes : Annotations} {frame : FrameId} {mark : Mark}

/-- Part of an expression. -/
theorem derives_part (frame : FrameId) (e : Expr) :
    (run (.expr frame e)).Derives ledger (·.Derived ledger) :=
  derives_run trivial

theorem derives_condition (frame : FrameId) (e : Expr) :
    (run (.condition frame e)).Derives ledger fun _ => True :=
  derives_run trivial

theorem derives_parts (frame : FrameId) (es : List Expr) :
    (run (.exprs frame es)).Derives ledger fun values => ∀ value ∈ values, value.Derived ledger :=
  derives_run trivial

theorem derives_expr {e : Expr} (plain : ∀ mark name, e ≠ .create mark name) :
    (expr notes frame e).Derives ledger (·.Derived ledger) := by
  cases e with
  | int _ _ | float _ _ | string _ _ | bool _ _ | null _ => exact derives_pure trivial
  | symbol mark name => exact derives_step Eval.derives_symbol
  | constructor mark name => exact derives_step Eval.derives_constructor
  | create mark name => exact absurd rfl (plain mark name)
  | array mark elements =>
    refine derives_bind (derives_parts frame elements) fun values given => ?_
    refine derives_bind (derives_step (Eval.derives_newRow fun value member => ?_))
      fun _ _ => derives_pure trivial
    obtain ⟨stored, found, rfl⟩ := List.mem_map.mp (List.mem_toArray.mp member)
    exact (given stored found).coerce _
  | paren mark inner => exact derives_part frame inner
  | unary mark op operand =>
    exact derives_bind (derives_part frame operand) fun _ _ =>
      derives_step (Eval.derives_lift fun _ gives => Value.derived_unary gives)
  | binary mark op left right =>
    simp only [expr]
    split
    · refine derives_bind (derives_condition frame left) fun holds _ => ?_
      cases holds with
      | false => exact derives_pure trivial
      | true => exact derives_bind (derives_condition frame right) fun _ _ => derives_pure trivial
    · refine derives_bind (derives_condition frame left) fun holds _ => ?_
      cases holds with
      | true => exact derives_pure trivial
      | false => exact derives_bind (derives_condition frame right) fun _ _ => derives_pure trivial
    · exact derives_bind (derives_part frame left) fun a _ =>
        derives_bind (derives_part frame right) fun b _ =>
          derives_step (Eval.derives_binary _ a b)
  | assign mark target value => exact derives_run trivial
  | call mark callee arguments =>
    exact derives_bind (derives_part frame callee) fun function called =>
      derives_bind (derives_parts frame arguments) fun values given =>
        derives_run ⟨called, given⟩
  | index mark array index =>
    exact derives_bind (derives_part frame array) fun a _ =>
      derives_bind (derives_part frame index) fun i _ =>
        derives_step (Eval.derives_readElement a i)
  | field mark receiver name =>
    exact derives_bind (derives_part frame receiver) fun value _ =>
      derives_step (Eval.derives_readField value)
  | member mark receiver name =>
    exact derives_bind (derives_part frame receiver) fun value _ =>
      derives_step (Eval.derives_readMember value)

theorem derives_exprs (es : List Expr) :
    (exprs frame es).Derives ledger fun values => ∀ value ∈ values, value.Derived ledger := by
  cases es with
  | nil => exact derives_pure nofun
  | cons e rest =>
    exact derives_bind (derives_part frame e) fun _ first =>
      derives_bind (derives_parts frame rest) fun _ others =>
        derives_pure (List.forall_mem_cons.mpr ⟨first, others⟩)

theorem derives_assign (target e : Expr) :
    (assign notes frame mark target e).Derives ledger (·.Derived ledger) := by
  cases target with
  | symbol place name =>
    refine derives_bind (derives_step (Eval.derives_declNode place.id)) fun decl _ => ?_
    refine derives_bind (derives_part frame e) fun result given => ?_
    have coerced := given.coerce (notes.typeOf? mark.id)
    have assigns : Eval.Derives ledger
        (Eval.change (·.assign frame name decl (result.coerce (notes.typeOf? mark.id))))
        fun _ => True :=
      Eval.derives_change fun heap derived => ⟨derived.assign coerced decl, trivial⟩
    refine derives_bind (derives_step assigns) fun stored _ => ?_
    cases stored with
    | ok _ => exact derives_pure coerced
    | error error => exact derives_step (Eval.derives_slotError error)
  | index place array index =>
    refine derives_bind (derives_part frame array) fun a _ => ?_
    refine derives_bind (derives_part frame index) fun i _ => ?_
    refine derives_bind (derives_part frame e) fun result given => ?_
    have coerced := given.coerce (notes.typeOf? mark.id)
    exact derives_bind (derives_step (Eval.derives_assignElement a i coerced))
      fun _ _ => derives_pure coerced
  | field place receiver name =>
    refine derives_bind (derives_part frame receiver) fun owner _ => ?_
    refine derives_bind (derives_part frame e) fun result given => ?_
    have coerced := given.coerce (notes.typeOf? mark.id)
    exact derives_bind (derives_step (Eval.derives_assignField owner coerced))
      fun _ _ => derives_pure coerced
  | member place receiver name =>
    refine derives_bind (derives_part frame receiver) fun owner _ => ?_
    refine derives_bind (derives_part frame e) fun result given => ?_
    have coerced := given.coerce (notes.typeOf? mark.id)
    exact derives_bind (derives_step (Eval.derives_assignMember owner coerced))
      fun _ _ => derives_pure coerced
  | _ => exact derives_step (Eval.derives_fault _ _)

/-- A call that runs no body. -/
theorem derives_call {callee : Value} (bodiless : ∀ decl outer, ¬ callee.Calls decl outer)
    {arguments : List Value} (given : ∀ value ∈ arguments, value.Derived ledger) (span : Span) :
    (call callee arguments span).Derives ledger (·.Derived ledger) := by
  cases callee with
  | function closure => exact absurd ⟨rfl, rfl⟩ (bodiless closure.decl closure.frame)
  | method receiver decl => exact absurd ⟨rfl, rfl⟩ (bodiless decl receiver)
  | constructor cls => exact derives_step (Eval.derives_construct cls given)
  | builtin function => exact derives_step (Eval.derives_callBuiltin function given)
  | null => exact derives_step (Eval.derives_fail _ span)
  | _ => exact derives_step (Eval.derives_fault _ span)

theorem derives_sequence (body : List Stmt) :
    (sequence frame body).Derives ledger (·.Derived ledger) := by
  cases body with
  | nil => exact derives_pure trivial
  | cons s rest =>
    refine derives_bind (derives_run trivial) fun completion given => ?_
    cases completion with
    | returned value => exact derives_pure given
    | normal => exact derives_run trivial

theorem derives_varDecl (decl : VariableDecl) :
    (varDecl notes frame decl).Derives ledger (·.Derived ledger) := by
  have define : ∀ value : Value, value.Derived ledger →
      (do Eval.update (·.define frame decl.name (some decl.mark.id) value)
          return .normal : Plan Completion).Derives ledger (·.Derived ledger) :=
    fun value given => derives_bind
      (derives_step (Eval.derives_update fun heap derived => derived.define given _))
      fun _ _ => derives_pure trivial
  unfold varDecl
  dsimp only
  split
  · exact derives_bind (derives_part frame _) fun value given =>
      derives_bind (derives_pure (given.coerce _)) define
  · exact derives_bind (derives_step (Eval.derives_change fun heap derived => derived.default _))
      define
  · have isNull : (pure .null : Plan Value).Derives ledger (·.Derived ledger) :=
      derives_pure trivial
    exact derives_bind isNull define

theorem derives_stmt (s : Stmt) : (stmt notes frame s).Derives ledger (·.Derived ledger) := by
  cases s with
  | block b => exact derives_run trivial
  | expression mark e => exact derives_bind (derives_part frame e) fun _ _ => derives_pure trivial
  | var decl => exact derives_varDecl decl
  | function decl | struct decl | box decl => exact derives_pure trivial
  | ifElse mark test thenBody elseBody =>
    refine derives_bind (derives_condition frame test) fun holds _ => ?_
    cases holds with
    | true => exact derives_run trivial
    | false =>
      cases elseBody with
      | none => exact derives_pure trivial
      | some elseBody => exact derives_run trivial
  | «while» mark test inner => exact derives_run trivial
  | «return» mark value =>
    cases value with
    | none => exact derives_pure trivial
    | some e => exact derives_bind (derives_part frame e) fun _ given => derives_pure given

theorem derives_loop (test : Expr) (inner : Stmt) :
    (loop frame test inner).Derives ledger (·.Derived ledger) := by
  refine derives_bind (derives_condition frame test) fun holds _ => ?_
  cases holds with
  | false => exact derives_pure trivial
  | true =>
    refine derives_bind (derives_run trivial) fun completion given => ?_
    cases completion with
    | returned value => exact derives_pure given
    | normal => exact derives_run trivial

end Clause

/-- Tasks that begin nothing and run no body of a function add nothing. -/
theorem derives_clause (notes : Annotations) {task : Task} (begins : task.begins? = none)
    (bodiless : ∀ callee arguments span, task = .call callee arguments span →
      ∀ decl outer, ¬ callee.Calls decl outer) (derived : task.Derived ledger) :
    (clause notes task).Derives ledger (task.Gives ledger) := by
  cases task with
  | expr frame e =>
    refine Clause.derives_expr fun mark name same => ?_
    subst same
    cases begins
  | exprs frame es => exact Clause.derives_exprs es
  | condition frame e =>
    exact Plan.derives_bind (Clause.derives_part frame e) fun value _ =>
      Plan.derives_step (Eval.derives_expectBool value)
  | assign frame mark target value => exact Clause.derives_assign target value
  | call callee arguments span =>
    exact Clause.derives_call (bodiless callee arguments span rfl) derived.2 span
  | invoke decl outer arguments span => cases begins
  | block outer b => cases begins
  | sequence frame body => exact Clause.derives_sequence body
  | stmt frame s => exact Clause.derives_stmt s
  | loop frame test inner => exact Clause.derives_loop test inner
  | body outer s =>
    cases s with
    | block b => exact Plan.derives_run trivial
    | _ => cases begins

/-! ## What is added -/

/-- The statements that a task enters. -/
def Task.statements? : Task → Option (List Stmt)
  | .body _ (.block _) => none
  | .block _ b => some b.body
  | .body _ s => some [s]
  | _ => none

/-- Whether a passage is at the start of the statements of a program, a block or a body. -/
def Passage.Starts (passage : Passage) (body : List Stmt) : Prop :=
  (∃ frame, passage.task = .sequence frame body) ∧
    ∀ asker, passage.asker = some asker → asker.enters = true

/-- Whether a ledger has what a passage adds: the functions and boxes that its frame holds when its
statements start, and where the frame lies that it begins. -/
structure Ledger.Covers (ledger : Ledger) (notes : Annotations) (passage : Passage) : Prop where
  starts : ∀ {body : List Stmt}, passage.Starts body → ∀ {name : String} {value : Value},
    passage.machine.heap.getLocal? passage.activation name = some value → value.Derived ledger
  enters : ∀ {body : List Stmt}, passage.task.statements? = some body →
    ledger.lies passage.next (some passage.activation)
  calls : ∀ {decl : FunctionDecl} {outer : FrameId} {callee : Value} {arguments given : List Value}
    {span place : Span}, passage.task = .invoke decl outer arguments span →
    passage.asker = some (.call callee given place) → callee.Calls decl outer →
    callee.Derived ledger → ledger.lies passage.next (some outer)
  creates : ∀ {frame : FrameId} {mark : Mark} {name : String} {cls : BoxClass},
    passage.task = .expr frame (.create mark name) →
    Eval.typeNamed notes passage.activation mark name passage.machine =
      .ok (.box cls) passage.machine →
    (Value.type (.box cls)).Derived ledger → ledger.lies passage.next (some cls.frame)

/-- Whether all that a passage has in hand is on a ledger. -/
structure Passage.Derived (ledger : Ledger) (passage : Passage) : Prop where
  heap : passage.machine.heap.Derived ledger
  task : passage.task.Derived ledger ∨
    ∃ decl outer callee arguments span, passage.task = .invoke decl outer arguments span ∧
      passage.asker = some (.call callee arguments span) ∧ callee.Calls decl outer ∧
      callee.Derived ledger ∧ ∀ value ∈ arguments, value.Derived ledger

/-! ## Passages -/

/-- What a frame holds that was just entered. -/
theorem Eval.getLocal?_entered (machine : Machine) (parent : Option FrameId)
    (entries : List (String × Binding)) (id : Nat) (name : String) :
    (entered machine parent entries id).heap.getLocal? machine.heap.frames.size name =
      ((Frame.bindAll entries []).lookup name).bind (·.value) := by
  simp [entered, Heap.newFrame, Heap.getLocal?, Frame.value?]

/-- A machine with one more frame is on a ledger that has what the frame holds and where it lies. -/
theorem Heap.Derived.entered {machine : Machine} (derived : machine.heap.Derived ledger)
    {parent : Option FrameId} {entries : List (String × Binding)}
    (names : ∀ name value, ((Frame.bindAll entries []).lookup name).bind (·.value) = some value →
      value.Derived ledger)
    (lies : ledger.lies machine.heap.frames.size parent) (id : Nat) :
    (Eval.entered machine parent entries id).heap.Derived ledger := by
  have made : (machine.heap.newFrame ⟨Frame.bindAll entries [], parent, none⟩).2.Derived ledger :=
    derived.newFrame names lies
  exact made.withNextId id

/-- The frame of a call holds the arguments. -/
theorem Heap.Derived.enteredCall (notes : Annotations) {machine : Machine}
    (derived : machine.heap.Derived ledger) {outer : FrameId} {arguments : List Value}
    (given : ∀ value ∈ arguments, value.Derived ledger)
    (lies : ledger.lies machine.heap.frames.size (some outer)) (parameters : List TypedName) :
    (Eval.entered machine (some outer) ((parameters.zip arguments).map (Eval.parameterEntry notes))
      machine.heap.nextId).heap.Derived ledger := by
  refine derived.entered (fun name value found => ?_) lies _
  obtain ⟨binding, looked, has⟩ := Option.bind_eq_some_iff.mp found
  rcases Frame.lookup_bindAll looked with member | none
  · obtain ⟨pair, zipped, same⟩ := List.mem_map.mp member
    cases same
    cases has
    exact (given _ (List.of_mem_zip zipped).2).coerce _
  · cases none

namespace Passage

variable {notes : Annotations} {fuel : Nat} {passage : Passage}

/-- Whether all that comes up while a passage is evaluated is on a ledger, and what it comes to. -/
def Stays (ledger : Ledger) (notes : Annotations) (fuel : Nat) (passage : Passage) : Prop :=
  (∀ inner ∈ passages notes fuel passage, inner.Derived ledger) ∧
    passage.visit.Gives ledger (evaluate notes fuel)

/-- Whether what a passage asks for stays on a ledger, as far as it starts on it. -/
def AsksWell (ledger : Ledger) (notes : Annotations) (fuel : Nat) (passage : Passage) : Prop :=
  ∀ visit ∈ (clause notes passage.task).asked (evaluate notes fuel) passage.machine,
    (passage.ask visit).Derived ledger → (passage.ask visit).Stays ledger notes fuel

/-- A passage stays on a ledger if it goes well with what it asks for. -/
theorem stays_of_asked (derived : passage.Derived ledger)
    (asks : passage.AsksWell ledger notes fuel)
    (inside : ∀ visit ∈ (clause notes passage.task).asked (evaluate notes fuel) passage.machine,
      (passage.ask visit).Derived ledger)
    (gives : passage.visit.Gives ledger (evaluate notes (fuel + 1))) :
    passage.Stays ledger notes (fuel + 1) := by
  refine ⟨List.forall_mem_cons.mpr ⟨derived, fun inner member => ?_⟩, gives⟩
  obtain ⟨visit, asked, found⟩ := List.mem_flatMap.mp member
  exact (asks visit asked (inside visit asked)).1 inner found

/-- A passage stays on a ledger that asks for one thing, and comes to what this comes to. -/
theorem stays_of_single (derived : passage.Derived ledger)
    (asks : passage.AsksWell ledger notes fuel) {inner : Visit}
    (asked : (clause notes passage.task).asked (evaluate notes fuel) passage.machine = [inner])
    (own : (passage.ask inner).Derived ledger)
    (ends : ∀ result last,
      (clause notes passage.task).follow (evaluate notes fuel) passage.machine = .ok result last →
      ∃ answer, evaluate notes fuel inner.task inner.machine = .ok answer last ∧
        (inner.task.Gives ledger answer → passage.task.Gives ledger result)) :
    passage.Stays ledger notes (fuel + 1) := by
  refine stays_of_asked derived asks (fun visit member => ?_) fun result last ran => ?_
  · rw [asked] at member
    cases List.mem_singleton.mp member
    exact own
  · obtain ⟨answer, evaluated, gives⟩ := ends result last ran
    have member : inner ∈ (clause notes passage.task).asked (evaluate notes fuel)
        passage.machine := by
      rw [asked]
      exact List.mem_singleton_self inner
    obtain ⟨heap, given⟩ := (asks inner member own).2 answer last evaluated
    exact ⟨heap, gives given⟩

section Step

variable (derived : passage.Derived ledger) (asks : passage.AsksWell ledger notes fuel)

include derived asks

/-- A task that adds nothing. -/
theorem stays_of_plain (begins : passage.task.begins? = none)
    (bodiless : ∀ callee arguments span, passage.task = .call callee arguments span →
      ∀ decl outer, ¬ callee.Calls decl outer) : passage.Stays ledger notes (fuel + 1) := by
  have task : passage.task.Derived ledger := by
    refine derived.task.resolve_right ?_
    rintro ⟨decl, outer, callee, arguments, span, same, _⟩
    rw [same] at begins
    cases begins
  obtain ⟨inside, ends⟩ := (derives_clause notes begins bodiless task).follow derived.heap
    fun visit asked heap task => (asks visit asked ⟨heap, .inl task⟩).2
  exact stays_of_asked derived asks (fun visit asked => ⟨(inside visit asked).1,
    .inl (inside visit asked).2⟩) ends

/-- A call that runs the body of a function. -/
theorem stays_of_call {callee : Value} {arguments : List Value} {span : Span}
    (task : passage.task = .call callee arguments span) {decl : FunctionDecl} {outer : FrameId}
    (calls : callee.Calls decl outer) : passage.Stays ledger notes (fuel + 1) := by
  obtain ⟨activation, asker, _, machine⟩ := passage
  cases task
  have clauseEq : clause notes (.call callee arguments span) =
      Plan.run (.invoke decl outer arguments span) := by
    cases callee with
    | function closure =>
      obtain ⟨rfl, rfl⟩ := calls
      rfl
    | method receiver called =>
      obtain ⟨rfl, rfl⟩ := calls
      rfl
    | _ => cases calls
  obtain ⟨called, given⟩ : callee.Derived ledger ∧ ∀ value ∈ arguments, value.Derived ledger :=
    derived.task.resolve_right (by rintro ⟨_, _, _, _, _, other, _⟩; cases other)
  have own : Passage.Derived ledger ⟨activation, some (.call callee arguments span),
      .invoke decl outer arguments span, machine⟩ :=
    ⟨derived.heap, .inr ⟨decl, outer, callee, arguments, span, rfl, rfl, calls, called, given⟩⟩
  have asked : (clause notes (.call callee arguments span)).asked (evaluate notes fuel) machine =
      [⟨.invoke decl outer arguments span, machine⟩] :=
    (congrArg (Plan.asked _ · machine) clauseEq).trans (Plan.asked_run_eq ..)
  refine stays_of_single derived asks asked own fun result last ran => ⟨result, ?_, id⟩
  · refine Eq.trans ?_ ran
    refine Eq.trans ?_ (congrArg (Plan.follow (evaluate notes fuel) · machine) clauseEq.symm)
    exact congrFun (bind_pure (evaluate notes fuel (.invoke decl outer arguments span))).symm _

end Step

end Passage

/-- The tasks that enter statements. -/
theorem Task.statements_cases {task : Task} {body : List Stmt}
    (enters : task.statements? = some body) :
    (∃ outer b, task = .block outer b ∧ b.body = body) ∨
      ∃ outer s, task = .body outer s ∧ (∀ b, s ≠ .block b) ∧ body = [s] := by
  cases task with
  | block outer b => exact .inl ⟨outer, b, rfl, Option.some.inj enters⟩
  | body outer s =>
    cases s with
    | block b => cases enters
    | _ => exact .inr ⟨outer, _, rfl, nofun, (Option.some.inj enters).symm⟩
  | _ => cases enters

/-- The tasks that begin an activation or an instance. -/
theorem Task.begins_cases {task : Task} {kind : ScopeKind} (begins : task.begins? = some kind) :
    (kind = .block ∧ ∃ body, task.statements? = some body) ∨
      (kind = .function ∧ ∃ decl outer arguments span, task = .invoke decl outer arguments span) ∨
      kind = .box ∧ ∃ frame mark name, task = .expr frame (.create mark name) := by
  cases task with
  | invoke decl outer arguments span =>
    exact .inr (.inl ⟨(Option.some.inj begins).symm, decl, outer, arguments, span, rfl⟩)
  | block outer b => exact .inl ⟨(Option.some.inj begins).symm, b.body, rfl⟩
  | body outer s =>
    cases s with
    | block b => cases begins
    | _ => exact .inl ⟨(Option.some.inj begins).symm, _, rfl⟩
  | expr frame e =>
    cases e with
    | create mark name => exact .inr (.inr ⟨(Option.some.inj begins).symm, frame, mark, name, rfl⟩)
    | _ => cases begins
  | _ => cases begins

/-- The tasks that enter a frame. -/
theorem Task.enters_cases {task : Task} (enters : task.enters = true) :
    (∃ body, task.statements? = some body) ∨
      ∃ decl outer arguments span, task = .invoke decl outer arguments span := by
  cases task with
  | invoke decl outer arguments span => exact .inr ⟨decl, outer, arguments, span, rfl⟩
  | block outer b => exact .inl ⟨b.body, rfl⟩
  | body outer s =>
    cases s with
    | block b => cases enters
    | _ => exact .inl ⟨_, rfl⟩
  | _ => cases enters

/-- What a task asks for that enters statements, and what it comes to. -/
theorem Task.enter_eq (notes : Annotations) {task : Task} {body : List Stmt}
    (enters : task.statements? = some body) (machine : Machine) :
    ∃ outer entries number, task.frame? = some outer ∧ task.enters = true ∧
      (∀ entry ∈ entries, ∃ s ∈ body, Eval.Declares notes machine.heap.frames.size s entry) ∧
      ∀ evaluator : Evaluator,
        let inner : Task := .sequence machine.heap.frames.size body
        let after := Eval.entered machine (some outer) entries number
        (clause notes task).asked evaluator machine = [⟨inner, after⟩] ∧
        ∀ result last, (clause notes task).follow evaluator machine = .ok result last →
          ∃ completion, evaluator inner after = .ok completion last ∧
            ∀ ledger, completion.Derived ledger → task.Gives ledger result := by
  have plan : ∀ outer, ∃ entries number,
      (∀ entry ∈ entries, ∃ s ∈ body, Eval.Declares notes machine.heap.frames.size s entry) ∧
      ∀ evaluator : Evaluator,
      let inner : Task := .sequence machine.heap.frames.size body
      let after := Eval.entered machine (some outer) entries number
      let entering : Plan Completion := do
        let frame ← Eval.enter notes outer body
        Plan.run (.sequence frame body)
      entering.asked evaluator machine = [⟨inner, after⟩] ∧
        ∀ result last, entering.follow evaluator machine = .ok result last →
          evaluator inner after = .ok result last := by
    intro outer
    obtain ⟨entries, number, ran, declares, _⟩ := Eval.enter_eq notes machine outer body
    refine ⟨entries, number, declares, fun evaluator =>
      ⟨Plan.asked_act_ask ran, fun result last whole => ?_⟩⟩
    obtain ⟨_, evaluated, rfl⟩ := Plan.of_follow_act_ask ran whole
    exact evaluated
  rcases statements_cases enters with
    ⟨outer, b, rfl, rfl⟩ | ⟨outer, s, rfl, noBlock, rfl⟩
  · obtain ⟨entries, number, declares, same⟩ := plan outer
    refine ⟨outer, entries, number, rfl, rfl, declares, fun evaluator => ⟨(same evaluator).1, ?_⟩⟩
    exact fun result last ran => ⟨result, (same evaluator).2 result last ran, fun _ => id⟩
  · obtain ⟨entries, number, declares, same⟩ := plan outer
    have clauseEq := Clause.body_of_alone notes outer noBlock
    refine ⟨outer, entries, number, rfl, ?_, declares, fun evaluator => ⟨?_, ?_⟩⟩
    · cases s with
      | block b => exact absurd rfl (noBlock b)
      | _ => rfl
    · exact (congrArg (Plan.asked evaluator · machine) clauseEq).trans (same evaluator).1
    · intro result last ran
      refine ⟨result, (same evaluator).2 result last ?_, fun _ => id⟩
      rw [← clauseEq]
      exact ran

namespace Passage

variable {notes : Annotations} {fuel : Nat} {passage : Passage}

section Step

variable (derived : passage.Derived ledger) (asks : passage.AsksWell ledger notes fuel)
  (covers : ∀ inner ∈ passages notes (fuel + 1) passage, ledger.Covers notes inner)
  (here : passage.task.Here passage.activation)

include derived asks covers

/-- Statements that are entered. -/
theorem stays_of_statements (here : passage.task.Here passage.activation) {body : List Stmt}
    (enters : passage.task.statements? = some body) : passage.Stays ledger notes (fuel + 1) := by
  obtain ⟨outer, entries, number, isFrame, entered, _, plan⟩ :=
    Task.enter_eq notes enters passage.machine
  obtain ⟨asked, ends⟩ := plan (evaluate notes fuel)
  have lies : ledger.lies passage.next (some outer) := by
    rw [here outer isFrame]
    exact (covers passage (mem_passages_self passage)).enters enters
  -- The passage at the start of the statements has what their frame holds on the ledger.
  let start : Visit := ⟨.sequence passage.next body,
    Eval.entered passage.machine (some outer) entries number⟩
  have passed : passage.ask start ∈ passages notes (fuel + 1) passage := by
    refine List.mem_cons_of_mem _ (List.mem_flatMap.mpr ⟨start, ?_, mem_passages_self _⟩)
    rw [asked]
    exact List.mem_singleton_self start
  have starts : (passage.ask start).Starts body := by
    refine ⟨⟨_, rfl⟩, fun asker is => ?_⟩
    cases is
    exact entered
  have own : (passage.ask start).Derived ledger := by
    refine ⟨derived.heap.entered (fun name value found => ?_) lies number, .inl trivial⟩
    have inside : (passage.ask start).activation = passage.next := if_pos entered
    have has : (passage.ask start).machine.heap.getLocal? (passage.ask start).activation name =
        some value := by
      rw [inside]
      exact (Eval.getLocal?_entered passage.machine (some outer) entries number name).trans found
    exact (covers _ passed).starts starts has
  refine stays_of_single derived asks asked own fun result last ran => ?_
  obtain ⟨completion, evaluated, gives⟩ := ends result last ran
  exact ⟨completion, evaluated, gives ledger⟩

/-- The body of a function that is called. -/
theorem stays_of_invoke {decl : FunctionDecl} {outer : FrameId} {arguments : List Value}
    {span : Span} (task : passage.task = .invoke decl outer arguments span) :
    passage.Stays ledger notes (fuel + 1) := by
  obtain ⟨activation, asker, _, machine⟩ := passage
  cases task
  rcases derived.task with none | ⟨_, _, callee, _, _, same, rfl, calls, called, given⟩
  · cases none
  cases same
  have lies : ledger.lies machine.heap.frames.size (some outer) :=
    (covers _ (mem_passages_self _)).calls rfl rfl calls called
  have entered := derived.heap.enteredCall notes given lies decl.parameters
  have ran : Eval.enterCall notes outer decl.parameters arguments machine = _ :=
    Eval.enterCall_eq outer decl.parameters arguments
  by_cases count : decl.parameters.length = arguments.length
  · have plan : clause notes (.invoke decl outer arguments span) =
        Plan.act (Eval.enterCall notes outer decl.parameters arguments) fun frame =>
          Plan.ask (.block frame decl.body) fun completion =>
            Plan.done (completion.value.coerce _) := if_pos count
    have asked : (clause notes (.invoke decl outer arguments span)).asked (evaluate notes fuel)
        machine = [⟨.block machine.heap.frames.size decl.body,
          Eval.entered machine (some outer) ((decl.parameters.zip arguments).map
            (Eval.parameterEntry notes)) machine.heap.nextId⟩] := by
      rw [plan]
      exact Plan.asked_act_ask ran
    refine stays_of_single derived asks asked ⟨entered, .inl trivial⟩ fun result last whole => ?_
    change (clause notes (.invoke decl outer arguments span)).follow _ machine = _ at whole
    rw [plan] at whole
    obtain ⟨completion, evaluated, rfl⟩ := Plan.of_follow_act_ask ran whole
    exact ⟨completion, evaluated, fun given => given.value.coerce _⟩
  · have plan : clause notes (.invoke decl outer arguments span) =
        Plan.act (Eval.fault (.argumentCount decl.name arguments.length) span) Plan.done :=
      if_neg count
    refine stays_of_asked derived asks (fun visit asked => ?_) fun result last whole => ?_
    · rw [plan] at asked
      cases asked
    · change (clause notes (.invoke decl outer arguments span)).follow _ machine = _ at whole
      rw [plan] at whole
      cases whole

/-- A new instance of a box. -/
theorem stays_of_create {frame : FrameId} {mark : Mark} {name : String}
    (task : passage.task = .expr frame (.create mark name))
    (here : passage.task.Here passage.activation) : passage.Stays ledger notes (fuel + 1) := by
  obtain ⟨activation, asker, _, machine⟩ := passage
  cases task
  have same : frame = activation := here frame rfl
  subst same
  refine stays_of_asked derived asks (fun visit asked => ?_) fun result last ran => ?_
  · change visit ∈ (liftM (Eval.create notes frame mark name) : Plan Value).asked _ machine at asked
    rw [Plan.asked_step] at asked
    cases asked
  · obtain ⟨made, after, created, ended⟩ := Eval.exists_of_bind_ok ran
    cases ended
    obtain ⟨cls, named, rfl, rfl⟩ := Eval.create_ok created
    obtain ⟨_, onLedger⟩ := Eval.derives_typeNamed machine _ machine derived.heap named
    exact ⟨derived.heap.newInstance
      ((covers _ (mem_passages_self _)).creates rfl named onLedger), trivial⟩

end Step

/-- All that comes up while a passage is evaluated is on a ledger that has what the passages add,
and so is what it comes to. -/
theorem stays_of_covers (derived : passage.Derived ledger)
    (here : passage.task.Here passage.activation)
    (covers : ∀ inner ∈ passages notes fuel passage, ledger.Covers notes inner) :
    passage.Stays ledger notes fuel := by
  induction fuel generalizing passage with
  | zero => exact ⟨List.forall_mem_singleton.mpr derived, nofun⟩
  | succ fuel ih =>
    have asks : passage.AsksWell ledger notes fuel := fun visit asked own =>
      ih own (here_ask here asked) fun inner found =>
        covers inner (List.mem_cons_of_mem _ (List.mem_flatMap.mpr ⟨visit, asked, found⟩))
    cases begins : passage.task.begins? with
    | none =>
      by_cases runs : ∃ callee arguments span decl outer,
          passage.task = .call callee arguments span ∧ callee.Calls decl outer
      · obtain ⟨callee, arguments, span, decl, outer, task, calls⟩ := runs
        exact stays_of_call derived asks task calls
      · exact stays_of_plain derived asks begins fun callee arguments span task decl outer calls =>
          runs ⟨callee, arguments, span, decl, outer, task, calls⟩
    | some kind =>
      obtain ⟨_, body, enters⟩ | ⟨_, decl, outer, arguments, span, task⟩ |
        ⟨_, frame, mark, name, task⟩ := Task.begins_cases begins
      · exact stays_of_statements derived asks covers here enters
      · exact stays_of_invoke derived asks covers task
      · exact stays_of_create derived asks covers task here

end Passage

end BoxScript
