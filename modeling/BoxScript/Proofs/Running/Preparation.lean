import BoxScript.Proofs.Running.Retention
import BoxScript.Proofs.Walking.Landmarks

/-!
# Variables in sight

Where a task is evaluated, the variables in sight of its names have values, as far as they are
declared in the same function or method: in each frame around, a variable of the scope for which
the frame stands has a value if it is visible from a name of the task (`World.Prepared`). The only
exception are the variables of statements that are still to run, and no name sees a variable of a
statement that comes after its own. So what one task needs for this, the tasks that it asks for have
(`ready_of_asked`).
-/

set_option autoImplicit false

namespace BoxScript

open Walk Step

/-! ## Bodies of functions -/

namespace SymbolTable

/-- Whether a scope is that of a function or method. -/
def isFunction (symbols : SymbolTable) (scope : ScopeId) : Bool :=
  symbols.scopes[scope]?.any (·.kind == .function)

/-- The scope of the innermost function or method around a scope, if there is one. -/
def bodyOf? (symbols : SymbolTable) (scope : ScopeId) : Option ScopeId :=
  (symbols.chain scope).find? symbols.isFunction

variable {symbols : SymbolTable} {steps : List Step} {inner around : ScopeId} {kind : ScopeKind}

/-- What lies in a scope that is not that of a function is in the function around. -/
theorem Reflects.bodyOf?_inside (reflects : symbols.Reflects steps) {next : ScopeId}
    (ordered : Ordered next steps) (opened : .openScope inner kind around ∈ steps)
    (other : kind ≠ .function) : symbols.bodyOf? inner = symbols.bodyOf? around := by
  obtain ⟨names, order, present⟩ := reflects.opened opened
  have no : symbols.isFunction inner = false := by
    simp only [isFunction, present, Option.any_some]
    exact beq_eq_false_iff_ne.mpr other
  rw [bodyOf?, reflects.chain_openScope ordered opened, List.find?_cons, no]
  rfl

theorem Reflects.bodyOf?_function (reflects : symbols.Reflects steps) {next : ScopeId}
    (ordered : Ordered next steps) (opened : .openScope inner .function around ∈ steps) :
    symbols.bodyOf? inner = some inner := by
  obtain ⟨names, order, present⟩ := reflects.opened opened
  have yes : symbols.isFunction inner = true := by
    simp only [isFunction, present, Option.any_some]
    rfl
  rw [bodyOf?, reflects.chain_openScope ordered opened, List.find?_cons, yes]

/-- The function around a scope is no younger than the scope. -/
theorem Reflects.bodyOf?_le (reflects : symbols.Reflects steps) {next : ScopeId}
    (ordered : Ordered next steps) {scope body : ScopeId}
    (inside : symbols.bodyOf? scope = some body) : body ≤ scope :=
  (reflects.chainFrom_older ordered _ scope).1 body (List.mem_of_find?_eq_some inside)

end SymbolTable

/-! ## Sites -/

namespace Task.Site

/-- Whether a name at a site sees a declaration. -/
def Sees (site : Site) (decl : Declaration) : Prop :=
  ∃ mark name, .expr (.symbol mark name) ∈ site.nodes ∧ decl.visibleFrom ≤ mark.span.start.offset

/-- Whether a declaration is that of a variable whose statement is still to run. -/
def Awaits (site : Site) (decl : Declaration) : Prop :=
  ∃ other, .var other ∈ site.coming ∧ other.name = decl.name ∧
    other.mark.span.stop.offset = decl.visibleFrom

theorem Sees.mono {site around : Site} {decl : Declaration} (sees : site.Sees decl)
    (part : site.nodes ⊆ around.nodes) : around.Sees decl := by
  obtain ⟨mark, name, member, visible⟩ := sees
  exact ⟨mark, name, part member, visible⟩

end Task.Site

namespace World

variable {known : Analysis} {w later : World} {heap after : Heap}

/-- Whether the variables in sight of a site have values, as far as they are declared in the same
function. -/
def Prepared (known : Analysis) (w : World) (heap : Heap) (site : Task.Site) : Prop :=
  ∀ home ∈ heap.chain site.frame, ∀ around scope, w.scope? home = some around →
    w.scope? site.frame = some scope →
    known.notes.symbols.bodyOf? around = known.notes.symbols.bodyOf? scope →
    ∀ decl ∈ contents around known.steps, decl.kind = .var → site.Sees decl →
      (heap.getLocal? home decl.name).isSome = true ∨ home = site.frame ∧ site.Awaits decl

theorem Mirrors.scope_of_mem {frames : List FrameId} {scopes : List ScopeId}
    (mirrors : w.Mirrors frames scopes) {frame : FrameId} (member : frame ∈ frames) :
    ∃ scope ∈ scopes, w.scope? frame = some scope :=
  exists_of_forall₂_left mirrors member

/-- A site in the same frame, later on. What its names see and what was still to run before has run
by then, or is still to run. -/
theorem Prepared.advance {site inner : Task.Site} (prepared : w.Prepared known heap site)
    (accepted : known.Accepted) (types : w.Types known heap) (typesLater : later.Types known after)
    (grown : w ≤ later) (keeps : heap.Keeps after) {scope : ScopeId}
    (home : w.scope? site.frame = some scope) (same : inner.frame = site.frame)
    (part : inner.nodes ⊆ site.nodes)
    (awaited : ∀ decl, inner.Sees decl → site.Awaits decl →
      (after.getLocal? site.frame decl.name).isSome = true ∨ inner.Awaits decl) :
    later.Prepared known after inner := by
  intro frame member around last standsLater homeLater body decl declared isVar sees
  rw [same, types.chain_eq typesLater grown home] at member
  obtain ⟨_, _, stands⟩ := (types.mirrors accepted home).scope_of_mem member
  rw [scope?_mono grown stands] at standsLater
  rw [same, scope?_mono grown home] at homeLater
  cases standsLater
  cases homeLater
  rcases prepared frame member _ _ stands home body decl declared isVar (sees.mono part) with
    has | ⟨rfl, awaits⟩
  · exact .inl (keeps frame decl.name has)
  · exact (awaited decl sees awaits).imp_right fun still => ⟨same.symm, still⟩

/-! ## Frames that are made -/

section Entering

variable {machine : Machine} {outer : FrameId} {entries : List (String × Binding)} {id : Nat}
  {scope inner : ScopeId}

theorem Types.chain_entered
    (types : later.Types known (Eval.entered machine (some outer) entries id).heap) :
    (Eval.entered machine (some outer) entries id).heap.chain machine.heap.frames.size =
      machine.heap.frames.size ::
        (Eval.entered machine (some outer) entries id).heap.chain outer := by
  have present : (Eval.entered machine (some outer) entries id).heap.frames[
      machine.heap.frames.size]? = some ⟨Frame.bindAll entries [], some outer, none⟩ := by
    simp [Eval.entered, Heap.newFrame]
  rw [Heap.chain_eq types.nested present]
  rfl

/-- A site in a frame that was just made: the variables of its scope are still to be declared, and
those around that are in the same function have values. -/
theorem Types.prepared_entered (types : w.Types known machine.heap) (accepted : known.Accepted)
    (typesLater : later.Types known (Eval.entered machine (some outer) entries id).heap)
    (grown : w ≤ later) (home : w.scope? outer = some scope)
    (stands : later.scope? machine.heap.frames.size = some inner) {nodes : List Node}
    {coming : List Stmt}
    (own : ∀ decl ∈ contents inner known.steps, decl.kind = .var →
      Task.Site.Awaits ⟨machine.heap.frames.size, nodes, coming⟩ decl)
    (others : ∀ frame ∈ machine.heap.chain outer, ∀ around, w.scope? frame = some around →
      known.notes.symbols.bodyOf? around = known.notes.symbols.bodyOf? inner →
      ∀ decl ∈ contents around known.steps, decl.kind = .var →
        Task.Site.Sees ⟨machine.heap.frames.size, nodes, coming⟩ decl →
        (machine.heap.getLocal? frame decl.name).isSome = true) :
    later.Prepared known (Eval.entered machine (some outer) entries id).heap
      ⟨machine.heap.frames.size, nodes, coming⟩ := by
  intro frame member around last standsLater homeLater body decl declared isVar sees
  rw [typesLater.chain_entered, types.chain_eq typesLater grown home] at member
  rw [stands] at homeLater
  cases homeLater
  rcases List.mem_cons.mp member with rfl | further
  · rw [stands] at standsLater
    cases standsLater
    exact .inr ⟨rfl, own decl declared isVar⟩
  · obtain ⟨_, _, standsHere⟩ := (types.mirrors accepted home).scope_of_mem further
    rw [scope?_mono grown standsHere] at standsLater
    cases standsLater
    refine .inl (Eval.keeps_entered machine (some outer) entries id frame decl.name ?_)
    exact others frame further _ standsHere body decl declared isVar sees

end Entering

/-- The variables of a scope that is opened for statements are those of the statements. -/
theorem awaits_of_body (accepted : known.Accepted) {scope inner : ScopeId} {kind : ScopeKind}
    {enclosing : Option FunctionDecl} {body : List Stmt}
    (walked : Body known.steps inner kind scope enclosing body) {decl : Declaration}
    (declared : decl ∈ contents inner known.steps) (isVar : decl.kind = .var) (frame : FrameId)
    (nodes : List Node) : Task.Site.Awaits ⟨frame, nodes, body⟩ decl := by
  rw [accepted.contents_eq walked.opened, walked.declared] at declared
  rcases List.mem_append.mp declared with here | here
  · obtain ⟨s, _, declares⟩ := List.mem_flatMap.mp here
    cases s <;> simp [hoisted] at declares <;> simp [declares] at isVar
  · obtain ⟨s, member, declares⟩ := List.mem_flatMap.mp here
    cases s with
    | var other =>
      rw [introduced, List.mem_singleton] at declares
      subst declares
      exact ⟨other, member, rfl, rfl⟩
    | _ => cases declares

end World

/-! ## Following a task -/

/-- The frame of a site stands for a scope. -/
theorem Admits.home {known : Analysis} {w : World} {task : Task}
    {promise : World → task.Result → Prop} (admits : Admits known w task promise)
    {site : Task.Site} (is : task.site? = some site) :
    ∃ scope, w.scope? site.frame = some scope := by
  cases admits <;> cases is <;> exact ⟨_, ‹_›⟩

theorem Task.coming_of_not_moves {task : Task} {site : Task.Site} (is : task.site? = some site)
    (stays : task.moves = false) : site.coming = [] := by
  cases task <;> cases is <;> first | rfl | cases stays

/-- Whether a task may be asked for on a heap on which the variables in its sight have values. -/
def Visit.Ready (known : Analysis) (w : World) (visit : Visit) : Prop :=
  w.Types known visit.machine.heap ∧ (∃ promise, Admits known w visit.task promise) ∧
    ∀ site, visit.task.site? = some site → w.Prepared known visit.machine.heap site

section Following

variable {known : Analysis} {w : World} {machine : Machine} {visit : Visit} {evaluator : Evaluator}

/-! ### Statements one after another -/

/-- A name sees no variable of its own statement or of a later one. -/
theorem not_sees_of_awaits {s : Stmt} {rest : List Stmt}
    (ordered : (Stmt.nodesOfAll (s :: rest)).Pairwise Node.Precedes) {frame : FrameId}
    {nodes : List Node} {decl : Declaration} (sees : Task.Site.Sees ⟨frame, s.nodes, []⟩ decl)
    (awaits : Task.Site.Awaits ⟨frame, nodes, s :: rest⟩ decl) : False := by
  obtain ⟨mark, name, member, visible⟩ := sees
  obtain ⟨other, coming, _, stops⟩ := awaits
  rw [Stmt.nodesOfAll] at ordered
  obtain ⟨within, _, across⟩ := List.pairwise_append.mp ordered
  have before : Node.Precedes (.expr (.symbol mark name)) (.stmt (.var other)) := by
    rcases List.mem_cons.mp coming with rfl | later
    · simp only [Stmt.nodes, List.mem_append, List.mem_singleton] at member within
      obtain ⟨_, _, inside⟩ := List.pairwise_append.mp within
      exact inside _ (member.resolve_right (by simp)) _ List.mem_cons_self
    · refine across _ member _ (Stmt.nodes_subset_nodesOfAll later ?_)
      simp [Stmt.nodes]
  have starts := before mark name other rfl rfl
  omega

theorem asked_sequence {frame : FrameId} {s : Stmt} {rest : List Stmt}
    (asked : visit ∈ (Clause.sequence frame (s :: rest)).asked evaluator machine) :
    visit = ⟨.stmt frame s, machine⟩ ∨
      ∃ after, evaluator (.stmt frame s) machine = .ok .normal after ∧
        visit = ⟨.sequence frame rest, after⟩ := by
  rcases Plan.asked_run_bind asked with here | ⟨completion, after, ran, later⟩
  · exact .inl here
  · cases completion with
    | returned value => cases later
    | normal => exact .inr ⟨after, ran, Plan.asked_run later⟩

/-- A variable has a value after its declaration. -/
theorem isSome_of_varDecl {notes : Annotations} {frame : FrameId} {decl : VariableDecl}
    {completion : Completion} {after : Machine}
    (ran : (Clause.varDecl notes frame decl).follow evaluator machine = .ok completion after)
    (bound : frame < after.heap.frames.size) :
    (after.heap.getLocal? frame decl.name).isSome = true := by
  have defined : ∃ middle : Heap, ∃ value,
      after.heap = middle.define frame decl.name (some decl.mark.id) value := by
    unfold Clause.varDecl at ran
    dsimp only at ran
    split at ran
    · rename_i e is
      change EStateM.bind (evaluator (.expr frame e)) _ machine = _ at ran
      simp only [EStateM.bind] at ran
      split at ran
      · cases ran
        exact ⟨_, _, rfl⟩
      · cases ran
    · cases ran
      exact ⟨_, _, rfl⟩
    · cases ran
      exact ⟨_, _, rfl⟩
  obtain ⟨middle, value, same⟩ := defined
  rw [same] at bound ⊢
  refine Heap.isSome_getLocal?_define ?_
  simpa [Heap.define, Heap.modifyNames] using bound

/-! ### Statements that are entered -/

/-- Statements that are entered are ready to run. -/
theorem ready_of_enter (accepted : known.Accepted) (types : w.Types known machine.heap)
    {outer : FrameId} {scope inner : ScopeId} {kind : ScopeKind} {enclosing : Option FunctionDecl}
    {body : List Stmt} (home : w.scope? outer = some scope)
    (walked : Body known.steps inner kind scope enclosing body) (noBox : kind ≠ .box)
    (noFunction : kind ≠ .function) {nodes : List Node}
    (prepared : w.Prepared known machine.heap ⟨outer, nodes, []⟩)
    (part : Stmt.nodesOfAll body ⊆ nodes) {frame : FrameId} {after : Machine}
    (ran : Eval.enter known.notes outer body machine = .ok frame after) :
    ∃ later, w ≤ later ∧ Visit.Ready known later ⟨.sequence frame body, after⟩ := by
  have safe : Eval.Safe known (fun _ => False) w (Eval.enter known.notes outer body)
      fun later frame => frame = w.frames.length ∧ later.scope? frame = some inner :=
    Eval.safe_enter accepted home walked noBox
  have ends := safe machine types
  obtain ⟨entries, id, entered, _⟩ := Eval.enter_eq known.notes machine outer body
  rw [entered] at ran ends
  cases ran
  obtain ⟨later, grown, typesLater, _, stands⟩ := ends
  have positive : 0 < inner :=
    Nat.lt_of_le_of_lt (Nat.zero_le _) (accepted.ordered.of_openScope walked.opened).1
  refine ⟨later, grown, typesLater,
    ⟨_, .sequence stands positive (Nat.lt_succ_self inner) walked.owned⟩, ?_⟩
  intro site is
  cases is
  refine types.prepared_entered accepted typesLater grown home stands
    (fun decl declared isVar => World.awaits_of_body accepted walked declared isVar _ _) ?_
  intro frame member around standsHere sameBody decl declared isVar sees
  rw [accepted.reflects.bodyOf?_inside accepted.ordered walked.opened noFunction] at sameBody
  have has := prepared frame member around scope standsHere home sameBody decl declared isVar
    (sees.mono part)
  refine has.resolve_right fun awaits => ?_
  obtain ⟨_, _, coming, _⟩ := awaits
  cases coming

/-- Statements that are entered and then run one after another. -/
theorem asked_entered {notes : Annotations} {outer : FrameId} {body : List Stmt}
    (asked : visit ∈ (do
      let frame ← Eval.enter notes outer body
      Plan.run (.sequence frame body) : Plan Completion).asked evaluator machine) :
    ∃ frame after, Eval.enter notes outer body machine = .ok frame after ∧
      visit = ⟨.sequence frame body, after⟩ := by
  obtain ⟨frame, after, ran, here⟩ := Plan.asked_step_bind asked
  exact ⟨frame, after, ran, Plan.asked_run here⟩

/-! ### Calls -/

/-- The body of a function that is called is ready to run: nothing that it sees outside counts. -/
theorem ready_of_invoke (accepted : known.Accepted) (types : w.Types known machine.heap)
    {decl : FunctionDecl} {outer : FrameId} {arguments : List Value} {span : Span}
    {promise : World → Value → Prop}
    (admits : Admits known w (.invoke decl outer arguments span) promise)
    (asked : visit ∈ (Clause.invoke known.notes decl outer arguments span).asked evaluator
      machine) : ∃ later, w ≤ later ∧ visit.Ready known later := by
  cases admits with
  | invoke callable suit =>
    obtain ⟨scope, inner, walked, home, declared⟩ := callable
    obtain ⟨_, _, typed, _, sameDeclared⟩ := accepted.signature walked
    rw [declared] at sameDeclared
    cases sameDeclared
    have length := typed.length_eq.trans suit.length_eq
    unfold Clause.invoke at asked
    rw [if_pos length] at asked
    have safe : Eval.Safe known (fun _ => False) w
        (Eval.enterCall known.notes outer decl.parameters arguments)
        fun later frame => frame = w.frames.length ∧ later.scope? frame = some inner :=
      Eval.safe_enterCall accepted home walked typed suit
    have ends := safe machine types
    obtain ⟨frame, after, ran, asked⟩ := Plan.asked_step_bind asked
    rw [Eval.enterCall_eq] at ran ends
    cases ran
    obtain ⟨later, grown, typesLater, _, stands⟩ := ends
    rcases Plan.asked_run_bind asked with rfl | ⟨_, _, _, none⟩
    · refine ⟨later, grown, typesLater, ⟨_, Clause.admits_functionBody walked stands⟩, ?_⟩
      intro site is
      cases is
      refine types.prepared_entered accepted typesLater grown home stands ?_ ?_
      · intro parameter declares isVar
        rw [accepted.contents_eq walked.opened, walked.declared] at declares
        obtain ⟨_, _, rfl⟩ := List.mem_map.mp declares
        cases isVar
      · -- A frame around stands for an older scope, which does not lie in the function.
        intro frame member around standsHere sameBody
        obtain ⟨found, reached, standsToo⟩ := (types.mirrors accepted home).scope_of_mem member
        rw [standsHere] at standsToo
        cases standsToo
        rw [accepted.reflects.bodyOf?_function accepted.ordered walked.opened] at sameBody
        have above := accepted.reflects.bodyOf?_le accepted.ordered sameBody
        have older := (accepted.reflects.chainFrom_older accepted.ordered _ scope).1 _ reached
        have inside := (accepted.ordered.of_openScope walked.opened).1
        exact absurd (Nat.lt_of_le_of_lt older inside) (Nat.not_lt.mpr above)
    · cases none

/-! ### All tasks -/

/-- What is asked for at a site in the same frame is ready if what it sees is not still to run. -/
theorem Visit.Ready.advance (accepted : known.Accepted) {task : Task}
    (ready : Visit.Ready known w ⟨task, machine⟩) {fuel : Nat}
    (asked : visit ∈ (clause known.notes task).asked (evaluate known.notes fuel) machine)
    (related : ∀ later, w ≤ later → later.Types known visit.machine.heap →
      ∀ inner, visit.task.site? = some inner → ∃ site, task.site? = some site ∧
        inner.frame = site.frame ∧ inner.nodes ⊆ site.nodes ∧
        ∀ decl, inner.Sees decl → site.Awaits decl →
          (visit.machine.heap.getLocal? site.frame decl.name).isSome = true ∨ inner.Awaits decl) :
    ∃ later, w ≤ later ∧ visit.Ready known later := by
  obtain ⟨types, ⟨promise, admits⟩, prepared⟩ := ready
  obtain ⟨later, kept, grown, typesLater, admitsLater⟩ :=
    (safe_clause accepted admits).admits (evaluate_sound accepted fuel) types asked
  obtain ⟨_, keeps⟩ := (keeps_clause known.notes task).asked (keeps_evaluate _ fuel) asked
  refine ⟨later, grown, typesLater, ⟨kept, admitsLater⟩, fun inner is => ?_⟩
  obtain ⟨site, isSite, same, part, awaited⟩ := related later grown typesLater inner is
  obtain ⟨scope, home⟩ := admits.home isSite
  exact (prepared site isSite).advance accepted types typesLater grown keeps home same part awaited

theorem ready_of_sequence (accepted : known.Accepted)
    (ordered : (landmarks known.steps).Pairwise Landmark.Precedes) {frame : FrameId}
    {body : List Stmt} (ready : Visit.Ready known w ⟨.sequence frame body, machine⟩) {fuel : Nat}
    (asked : visit ∈ (Clause.sequence frame body).asked (evaluate known.notes fuel) machine) :
    ∃ later, w ≤ later ∧ visit.Ready known later := by
  cases body with
  | nil => cases asked
  | cons s rest =>
    refine ready.advance accepted asked fun later grown typesLater inner is => ?_
    obtain ⟨_, ⟨promise, admits⟩, _⟩ := ready
    cases admits with
    | sequence home positive inside owned =>
      refine ⟨_, rfl, ?_⟩
      rcases asked_sequence asked with rfl | ⟨after, ran, rfl⟩
      · cases is
        refine ⟨rfl, by simp [Stmt.nodesOfAll], fun decl sees awaits => ?_⟩
        exact (not_sees_of_awaits (precedes_of_owned ordered owned) sees awaits).elim
      · cases is
        refine ⟨rfl, by simp [Stmt.nodesOfAll], fun decl _ awaits => ?_⟩
        obtain ⟨other, coming, named, stops⟩ := awaits
        rcases List.mem_cons.mp coming with rfl | further
        · have bound := typesLater.lt_size (World.scope?_mono grown home)
          cases fuel with
          | zero => cases ran
          | succ less => exact .inl (named ▸ isSome_of_varDecl ran bound)
        · exact .inr ⟨other, further, named, stops⟩

/-- A body without braces is entered as the only statement of its frame. -/
theorem ready_of_body (accepted : known.Accepted) {outer : FrameId} {s : Stmt}
    (ready : Visit.Ready known w ⟨.body outer s, machine⟩) (noBlock : ∀ b, s ≠ .block b)
    (asked : visit ∈ (Clause.body known.notes outer s).asked evaluator machine) :
    ∃ later, w ≤ later ∧ visit.Ready known later := by
  obtain ⟨types, ⟨promise, admits⟩, prepared⟩ := ready
  have plan : Clause.body known.notes outer s = (do
      let frame ← Eval.enter known.notes outer [s]
      Plan.run (.sequence frame [s])) := by
    cases s with
    | block b => exact absurd rfl (noBlock b)
    | _ => rfl
  rw [plan] at asked
  cases admits with
  | body home inside owned =>
    have walked := body_of_branch noBlock inside owned
    obtain ⟨frame, after, ran, rfl⟩ := asked_entered asked
    exact ready_of_enter accepted types home walked (by simp) (by simp) (prepared _ rfl)
      (by simp [Stmt.nodesOfAll]) ran

/-- The tasks that a ready task asks for are ready. -/
theorem ready_of_asked (accepted : known.Accepted)
    (ordered : (landmarks known.steps).Pairwise Landmark.Precedes) {task : Task}
    (ready : Visit.Ready known w ⟨task, machine⟩) {fuel : Nat}
    (asked : visit ∈ (clause known.notes task).asked (evaluate known.notes fuel) machine) :
    ∃ later, w ≤ later ∧ visit.Ready known later := by
  by_cases moves : task.moves = true
  · cases task with
    | sequence frame statements => exact ready_of_sequence accepted ordered ready asked
    | body outer s =>
      exact ready_of_body accepted ready (by rintro b rfl; cases moves) asked
    | block outer b =>
      obtain ⟨mark, statements⟩ := b
      obtain ⟨types, ⟨promise, admits⟩, prepared⟩ := ready
      cases admits with
      | block home walked returns =>
        obtain ⟨frame, after, ran, rfl⟩ := asked_entered asked
        exact ready_of_enter accepted types home walked (by simp) (by simp) (prepared _ rfl)
          (by simp [Block.nodes]) ran
    | invoke decl outer arguments span =>
      obtain ⟨types, ⟨promise, admits⟩, _⟩ := ready
      exact ready_of_invoke accepted types admits asked
    | _ => cases moves
  · have stays : task.moves = false := by simpa using moves
    refine ready.advance accepted asked fun later grown typesLater inner is => ?_
    obtain ⟨leads, _⟩ := (keeps_clause known.notes task).asked (keeps_evaluate _ fuel) asked
    obtain ⟨site, isSite, same, part⟩ := leads.resolve_left moves inner is
    refine ⟨site, isSite, same, part, fun decl _ awaits => ?_⟩
    obtain ⟨_, coming, _⟩ := awaits
    rw [Task.coming_of_not_moves isSite stays] at coming
    cases coming

/-- All tasks that come up from a ready one are ready. -/
theorem ready_of_visits (accepted : known.Accepted)
    (ordered : (landmarks known.steps).Pairwise Landmark.Precedes) {fuel : Nat} {task : Task}
    (ready : Visit.Ready known w ⟨task, machine⟩)
    (visited : visit ∈ visits known.notes fuel task machine) :
    ∃ later, w ≤ later ∧ visit.Ready known later := by
  induction fuel generalizing w task machine with
  | zero =>
    rw [List.mem_singleton.mp visited]
    exact ⟨w, le_refl w, ready⟩
  | succ fuel ih =>
    rcases mem_visits_cases visited with rfl | ⟨less, asked, same, found, inner⟩
    · exact ⟨w, le_refl w, ready⟩
    · cases same
      obtain ⟨middle, grown, readyMiddle⟩ := ready_of_asked accepted ordered ready found
      obtain ⟨later, further, readyLater⟩ := ih readyMiddle inner
      exact ⟨later, le_trans grown further, readyLater⟩

end Following

end BoxScript
