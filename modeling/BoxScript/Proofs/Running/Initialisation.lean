import BoxScript.Proofs.Running.MethodReferences
import BoxScript.Proofs.Running.Preparation
import BoxScript.Proofs.Running.Soundness
import BoxScript.Proofs.Walking.Sites

/-!
# Variables of the same function have values

A name that means a variable of the function or method that the name is in, or a variable outside of
all functions where the name is outside too, is never found without a value: wherever a run comes by
the name it is read, and an assignment to it succeeds once its value is known. A run that ends for
want of a value has come by a name in a function or method that means a variable declared outside of
that one (`Program.initialised_in_own_function`).
-/

set_option autoImplicit false
set_option maxRecDepth 100000

namespace BoxScript

open Walk Step

/-! ## What names see -/

namespace SymbolTable

/-- Around a scope outside of all functions there is no function either. -/
theorem Reflects.bodyOf?_around {symbols : SymbolTable} {steps : List Step}
    (reflects : symbols.Reflects steps) {next : ScopeId} (ordered : Ordered next steps)
    {scope outer : ScopeId} (outside : symbols.bodyOf? scope = none)
    (around : outer ∈ symbols.chain scope) : symbols.bodyOf? outer = none := by
  induction scope using Nat.strongRecOn with
  | ind scope ih =>
    cases present : symbols.scopes[scope]? with
    | none =>
      rw [chain] at around
      cases size : symbols.scopes.size with
      | zero => simp [size, chainFrom] at around
      | succ fuel => simp [size, chainFrom, present] at around
    | some found =>
      rcases reflects.scopes present with ⟨builtin, _⟩ | ⟨parent, _, opened⟩
      · subst builtin
        rw [reflects.chain_builtin] at around
        rw [List.mem_singleton.mp around, outside]
      · rw [reflects.chain_openScope ordered opened] at around
        rcases List.mem_cons.mp around with rfl | further
        · exact outside
        · refine ih parent (ordered.of_openScope opened).1 ?_ further
          rw [← reflects.bodyOf?_inside ordered opened, outside]
          intro function
          rw [function] at opened
          rw [reflects.bodyOf?_function ordered opened] at outside
          cases outside

end SymbolTable

namespace Program

variable {program : Program} {notes : Annotations}

/-- A variable ends before each name that means it. -/
theorem visibleFrom_le (accepted : (program.analysis notes).Accepted) {scope : ScopeId}
    {name : String} {position : Nat} {decl : Declaration}
    (resolves : notes.Resolves scope name position decl) (isVar : decl.kind = .var) :
    decl.visibleFrom ≤ position := by
  obtain ⟨id, found, present⟩ := resolves.found
  obtain ⟨_, home, _, _, declared, visible, _⟩ := SymbolTable.lookupAlong_eq_ok found
  obtain ⟨meant, member, presentToo, _⟩ := accepted.reflects.declaredIn declared
  have same : decl = meant := Option.some.inj (present.symm.trans presentToo)
  subst same
  rcases mem_contents_cases member with ⟨rfl, builtin⟩ | declares
  · obtain ⟨entry, _, value, is, rfl⟩ := accepted.builtin_cases member
    change entry.2 = .var at isVar
    rw [isVar] at is
    cases is
  · obtain ⟨_, kind, _, _, step, rfl⟩ := mem_declared.mp declares
    cases isVar
    obtain ⟨_, _, opened, sequential⟩ := Walk.sequential_of_declare rfl step
    obtain ⟨names, order, here⟩ := accepted.reflects.opened opened
    change notes.symbols.scopes[home]? = _ at here
    simpa [SymbolTable.isVisible, here, present, sequential] using visible

end Program

namespace Annotations

/-- Whether a name in a scope means a variable that is declared in the same function as the name, or
outside of all functions as the name is. -/
structure MeansOwn (notes : Annotations) (scope : ScopeId) (node : NodeId) (decl : Declaration) :
    Prop where
  declared : notes.declOf? node = some decl
  isVar : decl.kind = .var
  sameBody : notes.symbols.bodyOf? decl.scope = notes.symbols.bodyOf? scope

/-- Whether a name in a function means a variable that is declared outside of that function. -/
structure MeansOuter (notes : Annotations) (scope : ScopeId) (node : NodeId) (decl : Declaration) :
    Prop where
  declared : notes.declOf? node = some decl
  isVar : decl.kind = .var
  outside : ∃ body, notes.symbols.bodyOf? scope = some body ∧
    notes.symbols.bodyOf? decl.scope ≠ some body

end Annotations

/-! ## What names find -/

section Names

variable {program : Program} {notes : Annotations} {w : World} {machine : Machine}
  {site : Task.Site} {scope : ScopeId} {mark : Mark} {name : String} {decl : Declaration}

/-- A name of a site selects a frame in which its variable has a value. -/
theorem World.Prepared.selects
    (prepared : w.Prepared (program.analysis notes) machine.heap site)
    (accepted : (program.analysis notes).Accepted)
    (types : w.Types (program.analysis notes) machine.heap) (still : site.coming = [])
    (home : w.scope? site.frame = some scope) (member : .expr (.symbol mark name) ∈ site.nodes)
    (resolves : (program.analysis notes).notes.Resolves scope name mark.span.start.offset decl)
    (own : notes.MeansOwn scope mark.id decl) :
    ∃ selected value, machine.heap.select? site.frame name decl.node = some selected ∧
      machine.heap.getLocal? selected name = some value := by
  have isValue : decl.kind ≠ .method := by simp [own.isVar]
  obtain ⟨selected, _, _, selects, stands, _⟩ := types.select accepted home resolves isValue
  obtain ⟨declared, rfl, _⟩ := resolves.place accepted
  have visible := Program.visibleFrom_le accepted resolves own.isVar
  have has := prepared selected (List.mem_of_find?_eq_some selects) decl.scope scope stands home
    own.sameBody decl declared own.isVar ⟨mark, _, member, visible⟩
  refine ⟨selected, ?_⟩
  rcases has with has | ⟨_, _, coming, _⟩
  · obtain ⟨value, found⟩ := Option.isSome_iff_exists.mp has
    exact ⟨value, selects, found⟩
  · rw [still] at coming
    cases coming

/-- A name of a site whose variable has no value is in a function, and the variable is declared
outside of it. -/
theorem World.Prepared.outer
    (prepared : w.Prepared (program.analysis notes) machine.heap site)
    (accepted : (program.analysis notes).Accepted)
    (types : w.Types (program.analysis notes) machine.heap) (still : site.coming = [])
    (home : w.scope? site.frame = some scope) (member : .expr (.symbol mark name) ∈ site.nodes)
    (resolves : (program.analysis notes).notes.Resolves scope name mark.span.start.offset decl)
    (declared : notes.declOf? mark.id = some decl) {selected : FrameId}
    (reaches : machine.heap.Reaches notes.symbols site.frame scope name decl selected)
    (absent : machine.heap.getLocal? selected name = none) :
    notes.MeansOuter scope mark.id decl := by
  have isVar := reaches.ready absent
  have other : notes.symbols.bodyOf? decl.scope ≠ notes.symbols.bodyOf? scope := by
    intro same
    obtain ⟨found, value, selects, has⟩ :=
      prepared.selects accepted types still home member resolves ⟨declared, isVar, same⟩
    cases reaches.selects.symm.trans selects
    rw [absent] at has
    cases has
  refine ⟨declared, isVar, ?_⟩
  cases inside : notes.symbols.bodyOf? scope with
  | some body => exact ⟨body, rfl, inside ▸ other⟩
  | none =>
    obtain ⟨_, _, _, _, chain, _⟩ := resolves.place accepted
    have around : decl.scope ∈ notes.symbols.chain scope := by
      rw [show notes.symbols.chain scope = _ from chain]
      simp
    exact absurd ((accepted.reflects.bodyOf?_around accepted.ordered inside around).trans
      inside.symm) other

end Names

/-! ## Complaints -/

namespace Eval

variable {α β : Type} {machine after : Machine} {halt : Halt} {found : String × Span}

/-- If the rest of a step complains of no variable, then a complaint is one of its first part. -/
theorem first_of_missing {step : Eval β} {next : β → Eval α}
    (keeps : ∀ result, Keeps (fun _ _ => False) (next result))
    (ended : (step >>= next) machine = .error halt after) (missing : halt.missing? = some found) :
    step machine = .error halt after := by
  change EStateM.bind step next machine = _ at ended
  simp only [EStateM.bind] at ended
  split at ended
  · rename_i result middle _
    have kept := keeps result middle
    rw [ended] at kept
    exact (kept found.1 found.2 missing).elim
  · rename_i ran
    cases ended
    exact ran

end Eval

section Complaints

variable {known : Analysis} {w : World} {notes : Annotations} {frame : FrameId} {scope : ScopeId}
  {mark : Mark} {name : String} {machine after : Machine} {halt : Halt} {found : String × Span}
  {less : Nat}

/-- If the evaluation of a reference complains of a variable, then so does the read of it. -/
theorem Eval.read_of_missing {e : Expr} (refers : e.reference? = some (mark, name))
    (isValue : Eval.isMethod notes mark.id ≠ true)
    (ended : evaluate notes (less + 1) (.expr frame e) machine = .error halt after)
    (missing : halt.missing? = some found) :
    Eval.read notes frame mark name machine = .error halt after := by
  have named : Eval.typeNamed notes frame mark name machine = .error halt after →
      Eval.read notes frame mark name machine = .error halt after := by
    intro ended
    refine Eval.first_of_missing (fun value => ?_) ended missing
    cases value with
    | type value => exact Eval.keeps_pure value
    | _ => exact Eval.keeps_fault _ mark.span
  cases e with
  | symbol place word =>
    cases refers
    rwa [evaluate_symbol, Eval.symbol, if_neg isValue] at ended
  | constructor place word =>
    cases refers
    have ran := (congrFun (bind_pure (Eval.constructor notes frame mark name)) machine).symm.trans
      ended
    refine named (Eval.first_of_missing (fun value => ?_) ran missing)
    cases value with
    | struct cls => exact Eval.keeps_pure _
    | _ => exact Eval.keeps_fault _ mark.span
  | create place word =>
    cases refers
    have ran := (congrFun (bind_pure (Eval.create notes frame mark name)) machine).symm.trans ended
    refine named (Eval.first_of_missing (fun value => ?_) ran missing)
    cases value with
    | box cls =>
      exact Eval.keeps_bind (Eval.keeps_change fun heap => heap.keeps_newInstance cls)
        fun _ => Eval.keeps_pure _
    | _ => exact Eval.keeps_fault _ mark.span
  | _ => cases refers

/-- A name that means a method is not said to have no value. -/
theorem Eval.not_missing_of_method (method : Eval.isMethod notes mark.id = true)
    (ended : evaluate notes (less + 1) (.expr frame (.symbol mark name)) machine =
      .error halt after) : halt.missing? = none := by
  have keeps : Eval.Keeps (fun _ _ => False) (Eval.symbol notes frame mark name) :=
    Eval.keeps_symbol_of_method method
  have kept := keeps machine
  rw [← evaluate_symbol notes less, ended] at kept
  cases missing : halt.missing? with
  | none => rfl
  | some found => exact (kept found.1 found.2 missing).elim

/-- What a reference means that is no bare name. -/
theorem Analysis.Accepted.kind_of_reference (accepted : known.Accepted) {e : Expr}
    (walked : known.Walked scope e) (refers : e.reference? = some (mark, name))
    {decl : Declaration} (declared : known.notes.declOf? mark.id = some decl) :
    e = .symbol mark name ∨ decl.kind = .struct ∨ decl.kind = .box := by
  obtain ⟨expectation, step⟩ := walked.step
  cases e with
  | symbol place word =>
    cases refers
    exact .inl rfl
  | constructor place word =>
    cases refers
    obtain ⟨_, _, _, _, declaredToo, named, _⟩ :=
      Rule.constructor_of_holds (accepted.rule step rfl)
    cases declared.symm.trans declaredToo
    exact .inr (.inl (Declaration.namedType?_struct named).1)
  | create place word =>
    cases refers
    obtain ⟨_, _, _, declaredToo, named, _⟩ := Rule.create_of_holds (accepted.rule step rfl)
    cases declared.symm.trans declaredToo
    exact .inr (.inr (Declaration.namedType?_box named).1)
  | _ => cases refers

/-- A reference that is said to have no value is a bare name. What it means has no value in the
frame that the name reaches. -/
theorem World.Types.reaches_missing (types : w.Types known machine.heap) (accepted : known.Accepted)
    (home : w.scope? frame = some scope) {e : Expr} (walked : known.Walked scope e)
    (refers : e.reference? = some (mark, name))
    (ended : evaluate known.notes (less + 1) (.expr frame e) machine = .error halt after)
    (missing : halt.missing? = some found) :
    e = .symbol mark name ∧ ∃ decl selected,
      known.notes.Resolves scope name mark.span.start.offset decl ∧
      known.notes.declOf? mark.id = some decl ∧
      machine.heap.Reaches known.notes.symbols frame scope name decl selected ∧
      machine.heap.getLocal? selected name = none := by
  obtain ⟨decl, resolves, declared⟩ := accepted.reference walked refers
  have kind := accepted.kind_of_reference walked refers declared
  have isValue : decl.kind ≠ .method := by
    intro method
    rcases kind with rfl | kind | kind
    · have none := Eval.not_missing_of_method ((Eval.isMethod_iff declared).mpr method) ended
      rw [missing] at none
      cases none
    · cases kind.symm.trans method
    · cases kind.symm.trans method
  have failed := Eval.read_of_missing refers
    (fun method => isValue ((Eval.isMethod_iff declared).mp method)) ended missing
  obtain ⟨selected, reaches⟩ := types.reaches accepted home resolves isValue
  have absent : machine.heap.getLocal? selected name = none := by
    rw [Eval.read_of_select declared reaches.selects] at failed
    split at failed
    · cases failed
    · assumption
  have isVar := reaches.ready absent
  refine ⟨?_, decl, selected, resolves, declared, reaches, absent⟩
  rcases kind with is | kind | kind
  · exact is
  · cases kind.symm.trans isVar
  · cases kind.symm.trans isVar

/-- An assignment to a name that is said to have no value, after its value has been evaluated. -/
theorem World.Types.reaches_missing_of_assign (types : w.Types known machine.heap)
    (accepted : known.Accepted) (home : w.scope? frame = some scope) {word : Mark} {e : Expr}
    (targetWalked : known.Walked scope (.symbol word name)) (walked : known.Walked scope e)
    (assignable : Rule.Assignable known.notes (.symbol word name))
    (ended : evaluate known.notes (less + 1) (.assign frame mark (.symbol word name) e) machine =
      .error halt after)
    (own : ∀ visit ∈ (clause known.notes (.assign frame mark (.symbol word name) e)).asked
      (evaluate known.notes less) machine,
      evaluate known.notes less visit.task visit.machine ≠ .error halt after) :
    ∃ given decl selected,
      evaluate known.notes less (.expr frame e) machine = .ok given after ∧
      known.notes.Resolves scope name word.span.start.offset decl ∧
      known.notes.declOf? word.id = some decl ∧
      after.heap.Reaches known.notes.symbols frame scope name decl selected ∧
      after.heap.getLocal? selected name = none := by
  obtain ⟨decl, resolves, declared⟩ := accepted.reference targetWalked rfl
  have isValue : decl.kind ≠ .method := by
    obtain ⟨other, otherDeclared, kind⟩ := assignable
    cases declared.symm.trans otherDeclared
    rcases kind with kind | kind | kind <;> simp [kind]
  have start : Eval.declNode known.notes word.id name word.span machine = .ok decl.node machine :=
    Eval.declNode_of_declared declared
  have ends := evaluate_sound accepted less (.expr home walked) machine types
  cases ran : evaluate known.notes less (.expr frame e) machine with
  | error stop middle =>
    have same : evaluate known.notes (less + 1) (.assign frame mark (.symbol word name) e) machine =
        .error stop middle := by
      refine (Eval.bind_ok start).trans ?_
      change EStateM.bind (evaluate known.notes less (.expr frame e)) _ machine = _
      simp only [EStateM.bind, ran]
    cases same.symm.trans ended
    refine absurd ran (own ⟨.expr frame e, machine⟩ ?_)
    change _ ∈ Plan.asked _ (.act (Eval.declNode known.notes word.id name word.span) _) machine
    rw [Plan.asked, start]
    change _ ∈ Plan.asked _ (.ask (.expr frame e) _) machine
    rw [Plan.asked]
    exact List.mem_cons_self
  | ok given middle =>
    rw [ran] at ends
    obtain ⟨later, grown, typesLater, _⟩ := ends
    obtain ⟨selected, reaches⟩ :=
      typesLater.reaches accepted (scope?_mono grown home) resolves isValue
    rw [evaluate_assign_of_select mark declared ran reaches.selects] at ended
    split at ended
    · cases ended
    · rename_i absent
      cases ended
      exact ⟨given, decl, selected, rfl, resolves, declared, reaches, absent⟩

end Complaints

/-! ## Ready tasks -/

section Readiness

variable {known : Analysis} {w : World} {machine : Machine}

/-- What a site needs it still has after another task has been evaluated. -/
theorem World.Prepared.after {site : Task.Site} (prepared : w.Prepared known machine.heap site)
    (accepted : known.Accepted) (types : w.Types known machine.heap) {scope : ScopeId}
    (home : w.scope? site.frame = some scope) {task : Task} {promise : World → task.Result → Prop}
    (admits : Admits known w task promise) {less : Nat} {result : task.Result} {after : Machine}
    (ran : evaluate known.notes less task machine = .ok result after) :
    ∃ later, w ≤ later ∧ later.Types known after.heap ∧ later.Prepared known after.heap site := by
  have ends := evaluate_sound accepted less admits machine types
  rw [ran] at ends
  obtain ⟨later, grown, typesLater, _⟩ := ends
  have keeps := keeps_evaluate known.notes less task machine result after ran
  refine ⟨later, grown, typesLater, ?_⟩
  exact prepared.advance accepted types typesLater grown keeps home rfl (List.Subset.refl _)
    fun _ _ awaits => .inr awaits

/-- No variable is declared in the builtin scope. -/
theorem World.prepared_builtin (accepted : known.Accepted) (types : w.Types known machine.heap)
    {frame : FrameId} (home : w.scope? frame = some SymbolTable.builtinScope) {nodes : List Node}
    {coming : List Stmt} : w.Prepared known machine.heap ⟨frame, nodes, coming⟩ := by
  intro outer member around scope stands _ _ decl declared isVar
  obtain ⟨found, reached, standsToo⟩ := (types.mirrors accepted home).scope_of_mem member
  cases stands.symm.trans standsToo
  rw [accepted.reflects.chain_builtin, List.mem_singleton] at reached
  subst reached
  obtain ⟨entry, _, value, is, rfl⟩ := accepted.builtin_cases declared
  change entry.2 = .var at isVar
  rw [isVar] at is
  cases is

end Readiness

/-- Every program starts. -/
theorem Eval.exists_start (notes : Annotations) (p : Program) (machine : Machine) :
    ∃ root after, Eval.start notes p machine = .ok root after := by
  have rest := congrFun (Eval.start_eq notes p) machine
  rw [Eval.bind_ok (Eval.builtinFrame_eq machine)] at rest
  obtain ⟨entries, id, entered, _⟩ := Eval.enter_eq notes _ machine.heap.frames.size p.body
  exact ⟨_, _, rest.trans entered⟩

/-- The variable that a run was found to need the value of, and where. -/
def Outcome.missing? : Outcome → Option (String × Span)
  | .failed (.aborted ⟨.uninitialised name, span⟩) => some (name, span)
  | _ => none

theorem Outcome.missing?_eq_some {outcome : Outcome} {name : String} {span : Span}
    (missing : outcome.missing? = some (name, span)) :
    outcome = .failed (.aborted ⟨.uninitialised name, span⟩) := by
  unfold missing? at missing
  split at missing
  · cases missing
    rfl
  · cases missing

namespace Program

variable {file : String} {source : List Char} {program : Program} {notes : Annotations} {fuel : Nat}
    {output : Sink}

/-- The top level of a program is ready to run after the start. -/
theorem ready_start (accepted : (program.analysis notes).Accepted) {root : FrameId}
    {machine : Machine} (started : Eval.start notes program (.fresh output) = .ok root machine) :
    ∃ w, Visit.Ready (program.analysis notes) w ⟨.sequence root program.body, machine⟩ := by
  have safe : Eval.Safe (program.analysis notes) (fun _ => False) ⟨[], [], []⟩ Eval.builtinFrame
      fun later frame => later.scope? frame = some SymbolTable.builtinScope :=
    Eval.safe_builtinFrame accepted
  have ends := safe (.fresh output) World.types_empty
  rw [Eval.start_eq] at started
  cases ran : Eval.builtinFrame (.fresh output) with
  | error halt after =>
    change EStateM.bind _ _ _ = _ at started
    simp only [EStateM.bind, ran] at started
    cases started
  | ok outer middle =>
    rw [ran] at ends
    obtain ⟨w, _, types, home⟩ := ends
    rw [Eval.bind_ok ran] at started
    obtain ⟨later, _, ready⟩ := ready_of_enter accepted types home
      (Walk.body_program program.body) (by simp) (by simp)
      (World.prepared_builtin accepted types home) (List.Subset.refl _) started
    exact ⟨later, ready⟩

/-- Every task that comes up while a checked program runs is ready. -/
theorem ready_of_visits (checked : checkSource file source = .ok (program, notes)) {visit : Visit}
    (visited : visit ∈ program.visits notes fuel (.fresh output)) :
    ∃ w, visit.Ready (program.analysis notes) w := by
  have accepted := accepted_of_checkSource checked
  unfold visits at visited
  split at visited
  · obtain ⟨w, ready⟩ := ready_start accepted ‹_›
    have ordered := ordered_walk_of_readProgram (analyzed_of_checkSource checked).1
    obtain ⟨later, _, readyLater⟩ :=
      BoxScript.ready_of_visits accepted ordered ready visited
    exact ⟨later, readyLater⟩
  · cases visited

/-- A program that ends with an error has started, and its top level ends so. -/
theorem evaluated_of_runProgram {after : Machine} {error : RuntimeError}
    (ended : runProgram fuel notes program (.fresh output) = (.failed (.aborted error), after)) :
    ∃ root machine, Eval.start notes program (.fresh output) = .ok root machine ∧
      evaluate notes fuel (.sequence root program.body) machine = .error (.failed error) after := by
  have failed := program_of_runProgram ended
  obtain ⟨root, machine, started⟩ := Eval.exists_start notes program (.fresh output)
  refine ⟨root, machine, started, ?_⟩
  simp only [Eval.program, Bind.bind, EStateM.bind, started] at failed
  split at failed
  · cases failed
  · rename_i evaluated
    cases failed
    exact evaluated

/-- A task of a run that complains of a variable has a name in a function that means a variable
declared outside of that function. -/
theorem outer_of_missing (checked : checkSource file source = .ok (program, notes)) {visit : Visit}
    (visited : visit ∈ program.visits notes fuel (.fresh output)) {mark : Mark} {name : String}
    (subject : visit.task.subject? = some (mark, name)) {less : Nat} {halt : Halt} {after : Machine}
    (ended : evaluate notes (less + 1) visit.task visit.machine = .error halt after)
    (own : ∀ asked ∈ (clause notes visit.task).asked (evaluate notes less) visit.machine,
      evaluate notes less asked.task asked.machine ≠ .error halt after)
    {found : String × Span} (missing : halt.missing? = some found) :
    ∃ scope expectation decl, .expr scope expectation (.symbol mark name) ∈
      Walk.program program.body ∧ notes.MeansOuter scope mark.id decl := by
  have accepted := accepted_of_checkSource checked
  obtain ⟨w, types, ⟨promise, admits⟩, prepared⟩ := ready_of_visits checked visited
  obtain ⟨task, machine⟩ := visit
  cases admits with
  | @expr frame e scope home walked =>
    obtain ⟨rfl, decl, selected, resolves, declared, reaches, absent⟩ :=
      types.reaches_missing accepted home walked subject ended missing
    obtain ⟨expectation, step⟩ := walked.step
    refine ⟨scope, expectation, decl, step, ?_⟩
    exact (prepared _ rfl).outer accepted types rfl home (by simp [Expr.nodes]) resolves declared
      reaches absent
  | @assign frame place target e scope ty valueType home targetWalked walked assignable =>
    cases target with
    | symbol word other =>
      cases subject
      obtain ⟨given, decl, selected, ran, resolves, declared, reaches, absent⟩ :=
        types.reaches_missing_of_assign accepted home targetWalked walked assignable ended own
      obtain ⟨expectation, step⟩ := targetWalked.step
      refine ⟨scope, expectation, decl, step, ?_⟩
      obtain ⟨later, grown, typesLater, preparedLater⟩ :=
        (prepared _ rfl).after accepted types home (.expr home walked) ran
      exact preparedLater.outer accepted typesLater rfl (World.scope?_mono grown home)
        (by simp [Expr.nodes]) resolves declared reaches absent
    | _ => cases subject
  | _ => cases subject

/-- A name that means a variable of its own function is read. -/
theorem reads_own (checked : checkSource file source = .ok (program, notes)) {frame : FrameId}
    {mark : Mark} {name : String} {machine : Machine}
    (visited : ⟨.expr frame (.symbol mark name), machine⟩ ∈
      program.visits notes fuel (.fresh output))
    {scope : ScopeId} {expectation : Expectation}
    (step : .expr scope expectation (.symbol mark name) ∈ Walk.program program.body)
    {decl : Declaration} (own : notes.MeansOwn scope mark.id decl) :
    ∃ value, ∀ less,
      evaluate notes (less + 1) (.expr frame (.symbol mark name)) machine = .ok value machine := by
  have accepted := accepted_of_checkSource checked
  obtain ⟨w, types, ⟨promise, admits⟩, prepared⟩ := ready_of_visits checked visited
  cases admits with
  | @expr _ _ found home walked =>
    obtain ⟨_, there⟩ := walked.step
    cases accepted.distinct.scope_eq there step
    obtain ⟨meant, resolves, declared⟩ := accepted.reference walked rfl
    cases own.declared.symm.trans declared
    obtain ⟨selected, value, selects, has⟩ :=
      (prepared _ rfl).selects accepted types rfl home (by simp [Expr.nodes]) resolves own
    have isValue : Eval.isMethod notes mark.id ≠ true := by
      rw [Ne, Eval.isMethod_iff own.declared, own.isVar]
      simp
    refine ⟨value, fun less => ?_⟩
    rw [evaluate_symbol, Eval.symbol, if_neg isValue, Eval.read_of_select own.declared selects, has]

/-- An assignment to a name that means a variable of its own function succeeds once its value is
known. -/
theorem assigns_own (checked : checkSource file source = .ok (program, notes)) {frame : FrameId}
    {mark word : Mark} {target e : Expr} {name : String} {machine : Machine}
    (visited : ⟨.expr frame (.assign mark target e), machine⟩ ∈
      program.visits notes fuel (.fresh output))
    (bare : target.bare = .symbol word name) {scope : ScopeId} {expectation : Expectation}
    (step : .expr scope expectation (.assign mark target e) ∈ Walk.program program.body)
    {decl : Declaration} (own : notes.MeansOwn scope word.id decl) {less : Nat} {given : Value}
    {after : Machine} (ran : evaluate notes less (.expr frame e) machine = .ok given after) :
    ∃ last, evaluate notes (less + 2) (.expr frame (.assign mark target e)) machine =
      .ok (given.coerce (notes.typeOf? mark.id)) last := by
  have accepted := accepted_of_checkSource checked
  obtain ⟨w, types, ⟨promise, admits⟩, prepared⟩ := ready_of_visits checked visited
  cases admits with
  | @expr _ _ found home walked =>
    obtain ⟨_, there⟩ := walked.step
    cases accepted.distinct.scope_eq there step
    obtain ⟨targetWalked, _⟩ := Clause.bare_of_walked accepted (walked.part List.mem_cons_self)
    have valueWalked := walked.part (List.mem_cons_of_mem target List.mem_cons_self)
    rw [bare] at targetWalked
    obtain ⟨meant, resolves, declared⟩ := accepted.reference targetWalked rfl
    cases own.declared.symm.trans declared
    have inside : .expr (.symbol word name) ∈ (Expr.assign mark target e).nodes := by
      have here := target.nodes_bare_subset target.bare.mem_nodes_self
      rw [bare] at here
      simp [Expr.nodes, here]
    obtain ⟨later, grown, typesLater, preparedLater⟩ :=
      (prepared _ rfl).after accepted types home (.expr home valueWalked) ran
    obtain ⟨selected, value, selects, has⟩ := preparedLater.selects accepted typesLater rfl
      (World.scope?_mono grown home) inside resolves own
    rw [evaluate_assignment, bare, evaluate_assign_of_select mark own.declared ran selects, has]
    exact ⟨_, rfl⟩

/-- A variable of the function or method that a name is in has a value wherever a run comes by the
name, in whatever block, branch or round of a loop this is, and likewise if both are outside of all
functions: a read gives the value, and an assignment succeeds once its value is known. A run that
ends for want of a value has come by a name in a function or method that means a variable declared
outside of it. -/
theorem initialised_in_own_function (checked : checkSource file source = .ok (program, notes))
    (fuel : Nat) (output : Sink) :
    (∀ frame mark name machine,
      ⟨.expr frame (.symbol mark name), machine⟩ ∈ program.visits notes fuel (.fresh output) →
      ∀ scope expectation decl,
        .expr scope expectation (.symbol mark name) ∈ Walk.program program.body →
        notes.MeansOwn scope mark.id decl →
        ∃ value, ∀ less, evaluate notes (less + 1) (.expr frame (.symbol mark name)) machine =
          .ok value machine) ∧
    (∀ frame mark target e machine,
      ⟨.expr frame (.assign mark target e), machine⟩ ∈ program.visits notes fuel (.fresh output) →
      ∀ word name scope expectation decl, target.bare = .symbol word name →
        .expr scope expectation (.assign mark target e) ∈ Walk.program program.body →
        notes.MeansOwn scope word.id decl →
        ∀ less (given : Value) after,
          evaluate notes less (.expr frame e) machine = .ok given after →
          ∃ last, evaluate notes (less + 2) (.expr frame (.assign mark target e)) machine =
            .ok (given.coerce (notes.typeOf? mark.id)) last) ∧
    ∀ name span,
      (runProgram fuel notes program (.fresh output)).1.missing? = some (name, span) →
      ∃ visit ∈ program.visits notes fuel (.fresh output), ∃ mark scope expectation decl,
        visit.task.subject? = some (mark, name) ∧ mark.span = span ∧
        (∃ less, evaluate notes less visit.task visit.machine =
          .error (.failed ⟨.uninitialised name, span⟩)
            (runProgram fuel notes program (.fresh output)).2) ∧
        .expr scope expectation (.symbol mark name) ∈ Walk.program program.body ∧
        notes.MeansOuter scope mark.id decl := by
  refine ⟨?_, ?_, ?_⟩
  · intro frame mark name machine visited scope expectation decl step own
    exact reads_own checked visited step own
  · intro frame mark target e machine visited word name scope expectation decl bare step own less
      given after ran
    exact assigns_own checked visited bare step own ran
  · intro name span missing
    obtain ⟨root, machine, started, evaluated⟩ :=
      evaluated_of_runProgram (Prod.ext (Outcome.missing?_eq_some missing) rfl)
    obtain ⟨visit, visited, ⟨mark, subject, same⟩, less, raised, own⟩ :=
      visit_of_missing evaluated rfl
    have come : visit ∈ program.visits notes fuel (.fresh output) := by
      rw [visits, started]
      exact visited
    obtain ⟨scope, expectation, decl, step, outer⟩ :=
      outer_of_missing checked come subject raised own rfl
    exact ⟨visit, come, mark, scope, expectation, decl, subject, same, ⟨_, raised⟩, step, outer⟩

/-- Whether a name in a scope means a variable of its own function. -/
def isOwn (notes : Annotations) (scope : ScopeId) (node : NodeId) : Bool :=
  (notes.declOf? node).any fun decl =>
    match decl.kind with
    | .var => notes.symbols.bodyOf? decl.scope == notes.symbols.bodyOf? scope
    | _ => false

theorem meansOwn_of_isOwn {scope : ScopeId} {node : NodeId} (own : isOwn notes scope node = true) :
    ∃ decl, notes.MeansOwn scope node decl := by
  obtain ⟨decl, declared, holds⟩ := (Option.any_eq_true _ _).mp own
  split at holds
  · exact ⟨decl, declared, ‹_›, eq_of_beq holds⟩
  · cases holds

/-- Whether a name means a variable of its own function in each scope where the walk comes by an
expression. -/
def isOwnIn (notes : Annotations) (e : Expr) (node : NodeId) : Step → Bool
  | .expr scope _ other => other.id != e.id || isOwn notes scope node
  | _ => true

/-- Whether a name of its own function is read. -/
def readsName (program : Program) (notes : Annotations) : Visit → Bool
  | ⟨.expr _ (.symbol mark name), _⟩ =>
    (Walk.program program.body).all (isOwnIn notes (.symbol mark name) mark.id)
  | _ => false

/-- Whether a value is assigned to a name of its own function. -/
def assignsName (program : Program) (notes : Annotations) (fuel : Nat) : Visit → Bool
  | ⟨.expr frame (.assign mark target e), machine⟩ =>
    match target.bare with
    | .symbol word _ =>
      (Walk.program program.body).all (isOwnIn notes (.assign mark target e) word.id) &&
        isOk (evaluate notes fuel (.expr frame e) machine)
    | _ => false
  | _ => false

theorem own_of_visit (checked : checkSource file source = .ok (program, notes)) {frame : FrameId}
    {e : Expr} {machine : Machine} {node : NodeId}
    (visited : ⟨.expr frame e, machine⟩ ∈ program.visits notes fuel (.fresh output))
    (all : (Walk.program program.body).all (isOwnIn notes e node) = true) :
    ∃ scope expectation decl, .expr scope expectation e ∈ Walk.program program.body ∧
      notes.MeansOwn scope node decl := by
  obtain ⟨scope, expectation, step⟩ := step_of_visit (accepted_of_checkSource checked) visited
  have here := List.all_eq_true.mp all _ step
  simp only [isOwnIn, bne_self_eq_false, Bool.false_or] at here
  obtain ⟨decl, own⟩ := meansOwn_of_isOwn here
  exact ⟨scope, expectation, decl, step, own⟩

/-- A loop that reads and replaces variables of the top level and of its block, and a call of a
function before the declaration of a variable that it replaces. -/
theorem initialised_in_loop :
    ∃ program notes,
      checkSource "main.sigh" ("var i = 0; while i < 2 \x7b var k = i; i = k + 1 \x7d " ++
        "f(); var x = 1; fun f() \x7b x = 2 \x7d").toList = .ok (program, notes) ∧
      (∃ frame mark name machine scope decl value,
        ⟨.expr frame (.symbol mark name), machine⟩ ∈
          program.visits notes 30 (.fresh .unlimited) ∧
        notes.MeansOwn scope mark.id decl ∧
        ∀ less, evaluate notes (less + 1) (.expr frame (.symbol mark name)) machine =
          .ok value machine) ∧
      (∃ frame mark target e machine word name scope decl value last,
        ⟨.expr frame (.assign mark target e), machine⟩ ∈
          program.visits notes 30 (.fresh .unlimited) ∧
        target.bare = .symbol word name ∧ notes.MeansOwn scope word.id decl ∧
        evaluate notes 32 (.expr frame (.assign mark target e)) machine = .ok value last) ∧
      ∃ (mark : Mark) (scope : ScopeId) (decl : Declaration),
        (runProgram 30 notes program (.fresh .unlimited)).1.missing? = some ("x", mark.span) ∧
        notes.MeansOuter scope mark.id decl := by
  have passed : passes "main.sigh" ("var i = 0; while i < 2 \x7b var k = i; i = k + 1 \x7d " ++
        "f(); var x = 1; fun f() \x7b x = 2 \x7d").toList (fun program notes =>
      (program.visits notes 30 (.fresh .unlimited)).any (readsName program notes) &&
        (program.visits notes 30 (.fresh .unlimited)).any (assignsName program notes 30) &&
        (runProgram 30 notes program (.fresh .unlimited)).1.missing?.map Prod.fst =
          some "x") = true := by
    decide +kernel
  obtain ⟨program, notes, checked, holds⟩ := checked_of_passes passed
  rw [Bool.and_eq_true, Bool.and_eq_true, List.any_eq_true, List.any_eq_true] at holds
  obtain ⟨⟨⟨read, visited, reads⟩, assigned, visitedToo, assigns⟩, ended⟩ := holds
  obtain ⟨⟨_, span⟩, missing, rfl⟩ := Option.map_eq_some_iff.mp (of_decide_eq_true ended)
  obtain ⟨allReads, allAssigns, outer⟩ := initialised_in_own_function checked 30 .unlimited
  refine ⟨program, notes, checked, ?_, ?_, ?_⟩
  · unfold readsName at reads
    split at reads
    · rename_i frame mark name machine
      obtain ⟨scope, expectation, decl, step, own⟩ := own_of_visit checked visited reads
      obtain ⟨value, evaluated⟩ :=
        allReads frame mark name machine visited scope expectation decl step own
      exact ⟨frame, mark, name, machine, scope, decl, value, visited, own, evaluated⟩
    · cases reads
  · unfold assignsName at assigns
    split at assigns
    · rename_i frame mark target e machine
      split at assigns
      · rename_i word name bare
        obtain ⟨all, ok⟩ := (Bool.and_eq_true _ _).mp assigns
        obtain ⟨scope, expectation, decl, step, own⟩ := own_of_visit checked visitedToo all
        cases ran : evaluate notes 30 (.expr frame e) machine with
        | error halt after =>
          rw [ran] at ok
          cases ok
        | ok given after =>
          obtain ⟨last, evaluated⟩ := allAssigns frame mark target e machine visitedToo word name
            scope expectation decl bare step own 30 given after ran
          exact ⟨frame, mark, target, e, machine, word, name, scope, decl, _, last, visitedToo,
            bare, own, evaluated⟩
      · cases assigns
    · cases assigns
  · obtain ⟨_, _, mark, scope, _, decl, _, rfl, _, _, means⟩ := outer _ span missing
    exact ⟨mark, scope, decl, missing, means⟩

end Program

end BoxScript
