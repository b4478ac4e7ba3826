import BoxScript.Proofs.Running.Safety
import BoxScript.Proofs.Running.Visits

/-!
# What tasks may be asked for

A task may be asked for in a world if the parts of the program in it were walked in the scopes that
its frames stand for, and if the values in it have the shapes of the types that were found. Then its
result is to have the shape of its type (`Admits`). A plan is safe if its own steps are safe and it
asks only for such tasks. If all tasks that are asked for are evaluated as they should be, then a
safe plan is followed safely (`Plan.Safe.follow`), and each task it asks for is one that may be
asked for (`Plan.Safe.admits`).
-/

set_option autoImplicit false

namespace BoxScript

open Walk Step

section Promises

variable (known : Analysis) (w : World)

/-- An expression that the walk came by in a scope. -/
def Analysis.Walked (scope : ScopeId) (e : Expr) : Prop :=
  ∃ expectation, Walk.expr scope expectation e ⊆ known.steps

/-- A value that has the shape of the type of an expression. -/
def World.Yields (e : Expr) (value : Value) : Prop :=
  ∃ ty, known.notes.typeOf? e.id = some ty ∧ w.HasShape known ty value

/-- A value that may be given for a parameter of a type. -/
def World.Suits (param : Ty) (value : Value) : Prop :=
  ∃ ty, w.HasShape known ty value ∧ ty.isAssignableTo param = true

/-- How statements inside a function may end: they do not run to their end if they were found to
return always, and what they return becomes a value of the result type of the function. -/
def World.Completes (enclosing : Option FunctionDecl) (node : Option NodeId) : Completion → Prop
  | .normal => ∀ id, node = some id → known.notes.returns? id ≠ some true
  | .returned value => ∀ decl, enclosing = some decl →
    ∃ ty, Rule.resultType? known.notes decl = some ty ∧
      w.HasShape known ty (value.coerce (some ty))

/-- A frame that stands for a scope of a kind. -/
def World.IsOf (kind : ScopeKind) (frame : FrameId) : Prop :=
  ∃ scope found, w.scope? frame = some scope ∧ known.notes.symbols.scopes[scope]? = some found ∧
    found.kind = kind

end Promises

theorem World.IsOf.lt_length {known : Analysis} {w : World} {kind : ScopeKind} {frame : FrameId}
    (isOf : w.IsOf known kind frame) : frame < w.frames.length := by
  obtain ⟨scope, found, stands, _⟩ := isOf
  obtain ⟨shape, shaped, _⟩ := Option.map_eq_some_iff.mp stands
  exact (List.getElem?_eq_some_iff.mp shaped).1

theorem World.IsOf.mono {known : Analysis} {w later : World} {kind : ScopeKind} {frame : FrameId}
    (isOf : w.IsOf known kind frame) (grown : w ≤ later) : later.IsOf known kind frame := by
  obtain ⟨scope, found, stands, rest⟩ := isOf
  exact ⟨scope, found, World.scope?_mono grown stands, rest⟩

/-- The tasks that may be asked for in a world, each with what its result is to be. -/
inductive Admits (known : Analysis) (w : World) :
    (task : Task) → (World → task.Result → Prop) → Prop
  | expr {frame : FrameId} {e : Expr} {scope : ScopeId} (home : w.scope? frame = some scope)
      (walked : known.Walked scope e) :
      Admits known w (.expr frame e) fun later value => later.Yields known e value
  | exprs {frame : FrameId} {es : List Expr} {scope : ScopeId}
      (home : w.scope? frame = some scope) (walked : ∀ e ∈ es, known.Walked scope e) :
      Admits known w (.exprs frame es) fun later values =>
        List.Forall₂ (later.Yields known) es values
  | condition {frame : FrameId} {e : Expr} {scope : ScopeId} (home : w.scope? frame = some scope)
      (walked : known.Walked scope e) (typed : known.notes.typeOf? e.id = some .bool) :
      Admits known w (.condition frame e) fun _ _ => True
  | assign {frame : FrameId} {mark : Mark} {target e : Expr} {scope : ScopeId} {ty valueType : Ty}
      (home : w.scope? frame = some scope) (targetWalked : known.Walked scope target)
      (walked : known.Walked scope e) (assignable : Rule.Assignable known.notes target)
      (targetTyped : known.notes.typeOf? target.id = some ty)
      (valueTyped : known.notes.typeOf? e.id = some valueType)
      (fits : valueType.isAssignableTo ty = true)
      (typed : known.notes.typeOf? mark.id = some ty) :
      Admits known w (.assign frame mark target e) fun later value => later.HasShape known ty value
  | call {callee : Value} {arguments : List Value} {span : Span} {params : List Ty} {result : Ty}
      (shape : w.HasShape known (.function params result) callee)
      (suit : List.Forall₂ (w.Suits known) params arguments) :
      Admits known w (.call callee arguments span) fun later value =>
        later.HasShape known result value
  | invoke {decl : FunctionDecl} {outer : FrameId} {arguments : List Value} {span : Span}
      {params : List Ty} {result : Ty}
      (callable : w.Callable known decl outer (.function params result))
      (suit : List.Forall₂ (w.Suits known) params arguments) :
      Admits known w (.invoke decl outer arguments span) fun later value =>
        later.HasShape known result value
  | block {outer : FrameId} {b : Block} {scope inner : ScopeId} {enclosing : Option FunctionDecl}
      (home : w.scope? outer = some scope)
      (body : Body known.steps inner .block scope enclosing b.body)
      (returns : .rule (.blockReturns b.mark (b.body.getLast?.map Stmt.id)) ∈ known.steps) :
      Admits known w (.block outer b) fun later completion =>
        later.Completes known enclosing (some b.mark.id) completion
  | sequence {frame : FrameId} {body : List Stmt} {scope next : ScopeId}
      {enclosing : Option FunctionDecl} (home : w.scope? frame = some scope)
      (positive : 0 < scope) (inside : scope < next)
      (owned : Owned known.steps next (stmts scope next enclosing body)) :
      Admits known w (.sequence frame body) fun later completion =>
        later.Completes known enclosing (body.getLast?.map Stmt.id) completion
  | stmt {frame : FrameId} {s : Stmt} {scope next : ScopeId} {enclosing : Option FunctionDecl}
      (home : w.scope? frame = some scope) (positive : 0 < scope) (inside : scope < next)
      (owned : Owned known.steps next (Walk.stmt scope next enclosing s)) :
      Admits known w (.stmt frame s) fun later completion =>
        later.Completes known enclosing (some s.id) completion
  | loop {frame : FrameId} {test : Expr} {inner : Stmt} {scope next : ScopeId}
      {enclosing : Option FunctionDecl} (home : w.scope? frame = some scope)
      (walked : known.Walked scope test) (typed : known.notes.typeOf? test.id = some .bool)
      (inside : scope < next) (owned : Owned known.steps next (branch scope next enclosing inner)) :
      Admits known w (.loop frame test inner) fun later completion =>
        later.Completes known enclosing none completion
  | body {outer : FrameId} {s : Stmt} {scope next : ScopeId} {enclosing : Option FunctionDecl}
      (home : w.scope? outer = some scope) (inside : scope < next)
      (owned : Owned known.steps next (branch scope next enclosing s)) :
      Admits known w (.body outer s) fun later completion =>
        later.Completes known enclosing (some s.id) completion

/-- An evaluator that gives for each task what its result is to be. -/
def Evaluator.Sound (known : Analysis) (evaluator : Evaluator) : Prop :=
  ∀ ⦃task : Task⦄ ⦃w : World⦄ ⦃promise : World → task.Result → Prop⦄,
    Admits known w task promise → Eval.Safe known (fun _ => True) w (evaluator task) promise

namespace Plan

variable {α β : Type} {known : Analysis} {excuse : Halt → Prop} {w : World}
  {post weaker : World → α → Prop}

/-- A plan that is safe in a world. -/
def Safe (known : Analysis) (excuse : Halt → Prop) :
    World → Plan α → (World → α → Prop) → Prop
  | w, done result, post => post w result
  | w, act step next, post =>
    Eval.Safe known excuse w step fun later result => Safe known excuse later (next result) post
  | w, ask task next, post => ∃ promise, Admits known w task promise ∧
    ∀ later result, w ≤ later → promise later result →
      Safe known excuse later (next result) post

theorem Safe.mono {plan : Plan α} (safe : plan.Safe known excuse w post)
    (implies : ∀ later result, w ≤ later → post later result → weaker later result) :
    plan.Safe known excuse w weaker := by
  induction plan generalizing w with
  | done result => exact implies w result (le_refl w) safe
  | act step next ih =>
    refine Eval.Safe.mono safe fun later result grown rest => ih result rest ?_
    exact fun last result further => implies last result (le_trans grown further)
  | ask task next ih =>
    obtain ⟨promise, admits, rest⟩ := safe
    refine ⟨promise, admits, fun later result grown kept => ih result (rest _ _ grown kept) ?_⟩
    exact fun last result further => implies last result (le_trans grown further)

/-! ## Putting plans together -/

theorem safe_pure {result : α} (holds : post w result) :
    (pure result : Plan α).Safe known excuse w post :=
  holds

theorem safe_bind {plan : Plan β} {next : β → Plan α} {middle : World → β → Prop}
    (first : plan.Safe known excuse w middle)
    (second : ∀ later result, w ≤ later → middle later result →
      (next result).Safe known excuse later post) :
    (plan >>= next).Safe known excuse w post := by
  induction plan generalizing w with
  | done result => exact second w result (le_refl w) first
  | act step rest ih =>
    refine Eval.Safe.mono first fun later result grown safe => ih result safe ?_
    exact fun last result further => second last result (le_trans grown further)
  | ask task rest ih =>
    obtain ⟨promise, admits, safe⟩ := first
    refine ⟨promise, admits, fun later result grown kept => ih result (safe _ _ grown kept) ?_⟩
    exact fun last result further => second last result (le_trans grown further)

/-- A step on the machine. -/
theorem safe_step {step : Eval α} (safe : Eval.Safe known excuse w step post) :
    (liftM step : Plan α).Safe known excuse w post :=
  safe

/-- A task that may be asked for. -/
theorem safe_run {task : Task} {promise post : World → task.Result → Prop}
    (admits : Admits known w task promise)
    (kept : ∀ later result, w ≤ later → promise later result → post later result) :
    (run task).Safe known excuse w post :=
  ⟨promise, admits, kept⟩

/-! ## Plans that open a scope -/

/-- A plan that is safe in a world, and begins with a step that makes a frame for a scope of a
kind. -/
def Opens (known : Analysis) (excuse : Halt → Prop) (kind : ScopeKind) (w : World) (plan : Plan α)
    (post : World → α → Prop) : Prop :=
  ∃ (β : Type) (step : Eval β) (next : β → Plan α), plan = act step next ∧
    Eval.Safe known excuse w step fun later result =>
      later.IsOf known kind w.frames.length ∧ (next result).Safe known excuse later post

theorem Opens.safe {kind : ScopeKind} {plan : Plan α}
    (opens : plan.Opens known excuse kind w post) : plan.Safe known excuse w post := by
  obtain ⟨_, step, next, rfl, safe⟩ := opens
  exact Eval.Safe.mono safe fun _ _ _ holds => holds.2

theorem Opens.mono {kind : ScopeKind} {plan : Plan α} (opens : plan.Opens known excuse kind w post)
    (implies : ∀ later result, w ≤ later → post later result → weaker later result) :
    plan.Opens known excuse kind w weaker := by
  obtain ⟨_, step, next, rfl, safe⟩ := opens
  refine ⟨_, step, next, rfl, safe.mono fun later result grown holds => ?_⟩
  exact ⟨holds.1, holds.2.mono fun last final further =>
    implies last final (le_trans grown further)⟩

/-- A plan that begins with a step. -/
theorem opens_step_bind {kind : ScopeKind} {step : Eval β} {next : β → Plan α}
    (safe : Eval.Safe known excuse w step fun later result =>
      later.IsOf known kind w.frames.length ∧ (next result).Safe known excuse later post) :
    (liftM step >>= next).Opens known excuse kind w post :=
  ⟨β, step, next, rfl, safe⟩

/-! ## Following plans -/

variable {evaluator : Evaluator} {plan : Plan α} {machine : Machine}

/-- How following a safe plan ends. -/
theorem Safe.follow (safe : plan.Safe known excuse w post) (sound : evaluator.Sound known) :
    Eval.Safe known (fun _ => True) w (plan.follow evaluator) post := by
  induction plan generalizing w with
  | done result => exact Eval.safe_pure safe
  | act step next ih =>
    have weak : Eval.Safe known (fun _ => True) w step fun later result =>
        (next result).Safe known excuse later post := by
      intro machine types
      have ends := safe machine types
      cases result : step machine with
      | ok result after =>
        rw [result] at ends
        exact ends
      | error halt after =>
        rw [result] at ends
        exact ⟨ends.1, fun _ => trivial⟩
    exact Eval.safe_bind weak fun later result _ rest => ih result rest
  | ask task next ih =>
    obtain ⟨promise, admits, rest⟩ := safe
    exact Eval.safe_bind (sound admits) fun later result grown kept =>
      ih result (rest later result grown kept)

/-- The machines that a safe plan passes through. -/
theorem Safe.machines (safe : plan.Safe known excuse w post) (sound : evaluator.Sound known)
    (types : w.Types known machine.heap) {passed : Machine}
    (member : passed ∈ plan.machines evaluator machine) :
    ∃ later, w ≤ later ∧ later.Types known passed.heap := by
  induction plan generalizing w machine with
  | done result =>
    rw [List.mem_singleton.mp member]
    exact ⟨w, le_refl w, types⟩
  | act step next ih =>
    have ends := safe machine types
    simp only [Plan.machines] at member
    rcases List.mem_cons.mp member with rfl | member
    · exact ⟨w, le_refl w, types⟩
    · split at member
      · rename_i result after ran
        rw [ran] at ends
        obtain ⟨later, grown, typesLater, rest⟩ := ends
        obtain ⟨last, further, typesLast⟩ := ih result rest typesLater member
        exact ⟨last, le_trans grown further, typesLast⟩
      · rename_i halt after ran
        rw [ran] at ends
        rw [List.mem_singleton.mp member]
        exact ends.1
  | ask task next ih =>
    obtain ⟨promise, admits, rest⟩ := safe
    have ends := sound admits machine types
    simp only [Plan.machines] at member
    rcases List.mem_cons.mp member with rfl | member
    · exact ⟨w, le_refl w, types⟩
    · split at member
      · rename_i result after ran
        rw [ran] at ends
        obtain ⟨later, grown, typesLater, kept⟩ := ends
        obtain ⟨last, further, typesLast⟩ :=
          ih result (rest later result grown kept) typesLater member
        exact ⟨last, le_trans grown further, typesLast⟩
      · rename_i halt after ran
        rw [ran] at ends
        rw [List.mem_singleton.mp member]
        exact ends.1

/-- The tasks that a safe plan asks for. -/
theorem Safe.admits (safe : plan.Safe known excuse w post) (sound : evaluator.Sound known)
    (types : w.Types known machine.heap) {visit : Visit}
    (asked : visit ∈ plan.asked evaluator machine) :
    ∃ later promise, w ≤ later ∧ later.Types known visit.machine.heap ∧
      Admits known later visit.task promise := by
  induction plan generalizing w machine with
  | done result => cases asked
  | act step next ih =>
    have ends := safe machine types
    simp only [Plan.asked] at asked
    split at asked
    · rename_i result after ran
      rw [ran] at ends
      obtain ⟨later, grown, typesLater, rest⟩ := ends
      obtain ⟨last, promise, further, found⟩ := ih result rest typesLater asked
      exact ⟨last, promise, le_trans grown further, found⟩
    · cases asked
  | ask task next ih =>
    obtain ⟨promise, admits, rest⟩ := safe
    simp only [Plan.asked] at asked
    rcases List.mem_cons.mp asked with rfl | asked
    · exact ⟨w, promise, le_refl w, types, admits⟩
    · have ends := sound admits machine types
      split at asked
      · rename_i result after ran
        rw [ran] at ends
        obtain ⟨later, grown, typesLater, kept⟩ := ends
        obtain ⟨last, promise, further, found⟩ :=
          ih result (rest later result grown kept) typesLater asked
        exact ⟨last, promise, le_trans grown further, found⟩
      · cases asked

/-- Where a fault comes from that ends a safe plan: one of its steps is excused for it, or one of
the tasks that it asks for ends so. -/
theorem Safe.fault (safe : plan.Safe known excuse w post) (sound : evaluator.Sound known)
    (types : w.Types known machine.heap) {halt : Halt} {after : Machine}
    (ended : plan.follow evaluator machine = .error halt after) (fault : halt.isFault = true) :
    excuse halt ∨ ∃ visit ∈ plan.asked evaluator machine,
      evaluator visit.task visit.machine = .error halt after := by
  induction plan generalizing w machine with
  | done result => cases ended
  | act step next ih =>
    have ends := safe machine types
    change EStateM.bind step _ machine = _ at ended
    simp only [EStateM.bind] at ended
    simp only [Plan.asked]
    split at ended
    · rename_i result middle ran
      rw [ran] at ends ⊢
      obtain ⟨later, grown, typesLater, rest⟩ := ends
      exact ih result rest typesLater ended
    · rename_i stop middle ran
      cases ended
      rw [ran] at ends
      exact .inl (ends.2 fault)
  | ask task next ih =>
    obtain ⟨promise, admits, rest⟩ := safe
    have ends := sound admits machine types
    change EStateM.bind (evaluator task) _ machine = _ at ended
    simp only [EStateM.bind] at ended
    simp only [Plan.asked]
    split at ended
    · rename_i result middle ran
      rw [ran] at ends ⊢
      obtain ⟨later, grown, typesLater, kept⟩ := ends
      rcases ih result (rest later result grown kept) typesLater ended with
        excused | ⟨visit, asked, same⟩
      · exact .inl excused
      · exact .inr ⟨visit, List.mem_cons_of_mem _ asked, same⟩
    · rename_i stop middle ran
      cases ended
      exact .inr ⟨⟨task, machine⟩, List.mem_cons_self, ran⟩

end Plan

end BoxScript
