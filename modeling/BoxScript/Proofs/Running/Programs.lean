import BoxScript.Proofs.Running.Statements

/-!
# Runs of accepted programs

Evaluation follows safe plans only, so what a task promises is kept whatever the fuel is
(`evaluate_sound`). A program starts on a heap that conforms to a world of two frames, those of the
builtin scope and of the root scope. From there on, each task that a run comes by is one that may be
asked for in a world to which the heap conforms (`Program.admits_of_visits`).
-/

set_option autoImplicit false

namespace BoxScript

open Walk Step

variable {known : Analysis} {w : World}

/-! ## Evaluation -/

/-- Every task that may be asked for is evaluated as promised. -/
theorem evaluate_sound (accepted : known.Accepted) (fuel : Nat) :
    (evaluate known.notes fuel).Sound known := by
  induction fuel with
  | zero => exact fun _ _ _ _ => Eval.safe_outOfFuel
  | succ fuel ih => exact fun _ _ _ admits => (safe_clause accepted admits).follow ih

/-- Every task that comes up may be asked for. -/
theorem admits_of_visits (accepted : known.Accepted) {fuel : Nat} {task : Task}
    {machine : Machine} {promise : World → task.Result → Prop}
    (admits : Admits known w task promise) (types : w.Types known machine.heap) {visit : Visit}
    (visited : visit ∈ visits known.notes fuel task machine) :
    ∃ later kept, w ≤ later ∧ later.Types known visit.machine.heap ∧
      Admits known later visit.task kept := by
  induction fuel generalizing w task machine with
  | zero =>
    rw [List.mem_singleton.mp visited]
    exact ⟨w, promise, le_refl w, types, admits⟩
  | succ fuel ih =>
    rcases mem_visits_cases visited with rfl | ⟨less, asked, same, found, inner⟩
    · exact ⟨w, promise, le_refl w, types, admits⟩
    · cases same
      obtain ⟨middle, kept, grown, typesMiddle, admitsMiddle⟩ :=
        (safe_clause accepted admits).admits (evaluate_sound accepted fuel) types found
      obtain ⟨later, last, further, rest⟩ := ih admitsMiddle typesMiddle inner
      exact ⟨later, last, le_trans grown further, rest⟩

/-- A fault that ends an evaluation was raised by a task that is excused for it. -/
theorem visit_of_fault (accepted : known.Accepted) {fuel : Nat} {task : Task}
    {machine after : Machine} {promise : World → task.Result → Prop}
    (admits : Admits known w task promise) (types : w.Types known machine.heap) {halt : Halt}
    (ended : evaluate known.notes fuel task machine = .error halt after)
    (fault : halt.isFault = true) :
    ∃ visit ∈ visits known.notes fuel task machine, Excused known.notes visit.task halt ∧
      ∃ less, evaluate known.notes less visit.task visit.machine = .error halt after := by
  induction fuel generalizing w task machine with
  | zero =>
    cases ended
    cases fault
  | succ fuel ih =>
    have sound := evaluate_sound accepted fuel
    have safe := safe_clause accepted admits
    rcases safe.fault sound types ended fault with excused | ⟨asked, found, endedToo⟩
    · exact ⟨⟨task, machine⟩, List.mem_cons_self, excused, fuel + 1, ended⟩
    · obtain ⟨later, kept, _, typesLater, admitsLater⟩ := safe.admits sound types found
      obtain ⟨visit, visited, rest⟩ := ih admitsLater typesLater endedToo
      exact ⟨visit, List.mem_cons_of_mem _ (List.mem_flatMap.mpr ⟨asked, found, visited⟩), rest⟩

/-! ## The builtin frame -/

namespace Eval

variable {frame : FrameId} {machine : Machine}

/-- What a builtin name is bound to. -/
def builtinBinding? (entry : String × DeclKind) : Option (String × Binding) :=
  entry.2.builtinValue?.map fun value => (entry.1, ⟨none, some value⟩)

theorem defineBuiltins_eq (frame : FrameId) (machine : Machine)
    (builtins : List (String × DeclKind)) :
    defineBuiltins frame builtins machine =
      .ok () (bound machine frame (builtins.filterMap builtinBinding?) machine.heap.nextId) := by
  induction builtins generalizing machine with
  | nil =>
    rw [List.filterMap_nil, bound_nil]
    rfl
  | cons first rest ih =>
    obtain ⟨name, kind⟩ := first
    cases value : kind.builtinValue? with
    | none =>
      have none : builtinBinding? (name, kind) = none := by simp [builtinBinding?, value]
      simp only [defineBuiltins, value]
      rw [List.filterMap_cons_none none, ← ih]
    | some found =>
      have entry : builtinBinding? (name, kind) = some (name, ⟨none, some found⟩) := by
        simp [builtinBinding?, value]
      have ran : defineBuiltins frame ((name, kind) :: rest) machine =
          defineBuiltins frame rest
            (bound machine frame [(name, ⟨none, some found⟩)] machine.heap.nextId) := by
        simp only [defineBuiltins, value]
        exact bind_ok rfl
      rw [ran, ih, bound_bound, List.filterMap_cons_some entry]
      rfl

/-- Makes the frame of the builtins. -/
def builtinFrame : Eval FrameId := do
  let outer ← change (·.newFrame ⟨[], none, none⟩)
  defineBuiltins outer SymbolTable.builtins
  return outer

theorem builtinFrame_eq (machine : Machine) :
    builtinFrame machine = .ok machine.heap.frames.size (entered machine none
      (SymbolTable.builtins.filterMap builtinBinding?) machine.heap.nextId) := by
  have names := defineBuiltins_eq machine.heap.frames.size
    { machine with heap := (machine.heap.newFrame ⟨[], none, none⟩).2 } SymbolTable.builtins
  rw [bound_newFrame] at names
  rw [builtinFrame, change_bind]
  exact bind_ok names

theorem start_eq (notes : Annotations) (p : Program) :
    start notes p = builtinFrame >>= fun outer => enter notes outer p.body := by
  simp only [start, rootFrame, builtinFrame, enter, bind_assoc, pure_bind]

/-- The frames that a program starts with: that of the builtins, and inside it that of its top
level. -/
theorem start_fresh (notes : Annotations) (p : Program) (output : Sink) :
    ∃ entries id, start notes p (.fresh output) =
        .ok 1 (entered (entered (.fresh output) none
          (SymbolTable.builtins.filterMap builtinBinding?) 0) (some 0) entries id) ∧
      ∀ entry ∈ entries, ∃ s ∈ p.body, Declares notes 1 s entry := by
  obtain ⟨entries, id, ran, declares, _⟩ := enter_eq notes (entered (.fresh output) none
    (SymbolTable.builtins.filterMap builtinBinding?) 0) 0 p.body
  refine ⟨entries, id, ?_, declares⟩
  rw [start_eq, bind_ok (builtinFrame_eq (.fresh output))]
  exact ran

end Eval

/-- The builtin scope holds the builtins, and nothing else. -/
theorem Analysis.Accepted.builtin_cases (accepted : known.Accepted) {decl : Declaration}
    (member : decl ∈ contents SymbolTable.builtinScope known.steps) :
    ∃ entry ∈ SymbolTable.builtins, ∃ value, entry.2.builtinValue? = some value ∧
      decl = ⟨entry.1, entry.2, none, SymbolTable.builtinScope, 0, .none⟩ := by
  rcases mem_contents_cases member with ⟨_, builtin⟩ | declares
  · obtain ⟨entry, present, rfl⟩ := List.mem_map.mp builtin
    have all : ∀ entry ∈ SymbolTable.builtins, entry.2.builtinValue?.isSome = true := by
      simp [SymbolTable.builtins, DeclKind.builtinValue?]
    obtain ⟨value, is⟩ := Option.isSome_iff_exists.mp (all entry present)
    exact ⟨entry, present, value, is, rfl⟩
  · obtain ⟨_, _, _, _, step, _⟩ := mem_declared.mp declares
    obtain ⟨later, _, positive, _⟩ := accepted.ordered.of_mem step
    exact absurd positive (Nat.lt_irrefl 0)

namespace World

theorem names_builtin (accepted : known.Accepted) :
    w.Names known SymbolTable.builtinScope
      (Frame.bindAll (SymbolTable.builtins.filterMap Eval.builtinBinding?) []) := by
  refine names_bindAll ?_ ?_
  · intro entry member
    obtain ⟨⟨name, kind⟩, builtin, same⟩ := List.mem_filterMap.mp member
    obtain ⟨value, is, rfl⟩ := Option.map_eq_some_iff.mp same
    refine ⟨⟨name, kind, none, SymbolTable.builtinScope, 0, .none⟩,
      List.mem_append_left _ ?_, rfl, ?_, rfl, ?_, by simp⟩
    · rw [if_pos rfl]
      exact List.mem_map.mpr ⟨_, builtin, rfl⟩
    · rintro rfl
      cases is
    · intro stored same
      cases same
      cases kind <;> cases is <;> rfl
  · intro decl member _
    obtain ⟨entry, present, value, is, rfl⟩ := accepted.builtin_cases member
    exact ⟨_, List.mem_filterMap.mpr ⟨_, present, by rw [Eval.builtinBinding?, is]; rfl⟩⟩

theorem plain_builtin (accepted : known.Accepted) :
    ∀ decl ∈ contents SymbolTable.builtinScope known.steps, decl.kind ≠ .method := by
  intro decl member
  obtain ⟨entry, _, value, is, rfl⟩ := accepted.builtin_cases member
  intro method
  change entry.2 = .method at method
  rw [method] at is
  cases is

theorem types_empty : World.Types known ⟨[], [], []⟩ .empty where
  frameCount := rfl
  parents := rfl
  rowCount := rfl
  frames := by simp [Heap.empty]
  rows := by simp [Heap.empty]

end World

/-! ## Starting -/

/-- The frame of the builtins stands for the builtin scope. -/
theorem Eval.safe_builtinFrame (accepted : known.Accepted) {excuse : Halt → Prop} :
    Safe known excuse w builtinFrame fun later frame =>
      later.scope? frame = some SymbolTable.builtinScope := by
  intro machine types
  rw [builtinFrame_eq]
  have stands : (w.withFrame (SymbolTable.builtinScope, none) none).Stands known
      machine.heap.frames.size (SymbolTable.builtinScope, none)
      ⟨Frame.bindAll (SymbolTable.builtins.filterMap builtinBinding?) [], none, none⟩ :=
    ⟨rfl, .inl ⟨rfl, rfl, rfl⟩, by simp, fun _ => World.plain_builtin accepted,
      World.names_builtin accepted⟩
  have typesLater := types.newFrame stands rfl
  exact ⟨_, World.le_withFrame w _ none, typesLater.withNextId _,
    World.scope?_of_frames (types.frames_withFrame _ _)⟩

/-- The frame of a program stands for its root scope. -/
theorem Eval.safe_start {p : Program} {notes : Annotations}
    (accepted : (p.analysis notes).Accepted) {excuse : Halt → Prop} :
    Safe (p.analysis notes) excuse w (start notes p) fun later root =>
      later.scope? root = some 1 := by
  rw [start_eq]
  refine safe_bind (safe_builtinFrame accepted) fun later outer grown stands => ?_
  exact (safe_enter accepted stands (body_program p.body) (by simp)).mono fun _ _ _ => And.right

/-! ## Runs -/

namespace Program

variable {program : Program} {notes : Annotations} {output : Sink}

/-- How the start of a program ends. -/
theorem ends_of_start (accepted : (program.analysis notes).Accepted) (output : Sink) :
    Eval.Ends (program.analysis notes) (fun _ => False) ⟨[], [], []⟩
      (fun later root => later.scope? root = some 1)
      (Eval.start notes program (.fresh output)) :=
  Eval.safe_start accepted (.fresh output) World.types_empty

/-- The top level of a program may be asked for after the start. -/
theorem admits_start (accepted : (program.analysis notes).Accepted) {root : FrameId}
    {machine : Machine} (started : Eval.start notes program (.fresh output) = .ok root machine) :
    ∃ w promise, w.Types (program.analysis notes) machine.heap ∧
      Admits (program.analysis notes) w (.sequence root program.body) promise := by
  have ends := ends_of_start accepted output
  rw [started] at ends
  obtain ⟨w, _, types, home⟩ := ends
  exact ⟨w, _, types, .sequence home Nat.zero_lt_one (Nat.lt_succ_self 1)
    (body_program program.body).owned⟩

/-- The start of a program does not end with a fault. -/
theorem not_fault_of_start (accepted : (program.analysis notes).Accepted) {halt : Halt}
    {after : Machine} (ended : Eval.start notes program (.fresh output) = .error halt after) :
    halt.isFault = false := by
  have ends := ends_of_start accepted output
  rw [ended] at ends
  exact Bool.eq_false_iff.mpr ends.2

/-- Every task that comes up while an accepted program runs may be asked for. -/
theorem admits_of_visits (accepted : (program.analysis notes).Accepted) {fuel : Nat}
    {visit : Visit} (visited : visit ∈ program.visits notes fuel (.fresh output)) :
    ∃ w promise, w.Types (program.analysis notes) visit.machine.heap ∧
      Admits (program.analysis notes) w visit.task promise := by
  unfold visits at visited
  split at visited
  · rename_i root machine started
    obtain ⟨w, promise, types, admits⟩ := admits_start accepted started
    obtain ⟨later, kept, _, typesLater, admitsLater⟩ :=
      BoxScript.admits_of_visits accepted admits types visited
    exact ⟨later, kept, typesLater, admitsLater⟩
  · cases visited

/-- Each expression that is evaluated is one that the walk has come by, in a frame that stands for
the scope of the walk. -/
theorem walked_of_visit (accepted : (program.analysis notes).Accepted) {fuel : Nat}
    {frame : FrameId} {e : Expr} {machine : Machine}
    (visited : ⟨.expr frame e, machine⟩ ∈ program.visits notes fuel (.fresh output)) :
    ∃ (w : World) (scope : ScopeId), w.Types (program.analysis notes) machine.heap ∧
      w.scope? frame = some scope ∧ (program.analysis notes).Walked scope e := by
  obtain ⟨w, promise, types, admits⟩ := admits_of_visits accepted visited
  cases admits with
  | expr home walked => exact ⟨w, _, types, home, walked⟩

theorem step_of_visit (accepted : (program.analysis notes).Accepted) {fuel : Nat} {frame : FrameId}
    {e : Expr} {machine : Machine}
    (visited : ⟨.expr frame e, machine⟩ ∈ program.visits notes fuel (.fresh output)) :
    ∃ scope expectation, .expr scope expectation e ∈ Walk.program program.body := by
  obtain ⟨_, scope, _, _, walked⟩ := walked_of_visit accepted visited
  obtain ⟨expectation, step⟩ := walked.step
  exact ⟨scope, expectation, step⟩

/-- A fault that ends a run was raised by a task of the run that is excused for it. -/
theorem visit_of_fault (accepted : (program.analysis notes).Accepted) {fuel : Nat} {halt : Halt}
    {after : Machine} (ended : Eval.program notes fuel program (.fresh output) = .error halt after)
    (fault : halt.isFault = true) :
    ∃ visit ∈ program.visits notes fuel (.fresh output), Excused notes visit.task halt ∧
      ∃ less, evaluate notes less visit.task visit.machine = .error halt after := by
  cases started : Eval.start notes program (.fresh output) with
  | error stop middle =>
    have same : stop = halt := by
      simp only [Eval.program, Bind.bind, EStateM.bind, started] at ended
      cases ended
      rfl
    have noFault := not_fault_of_start accepted started
    rw [same, fault] at noFault
    cases noFault
  | ok root machine =>
    obtain ⟨w, promise, types, admits⟩ := admits_start accepted started
    have ran : evaluate notes fuel (.sequence root program.body) machine = .error halt after := by
      simp only [Eval.program, Bind.bind, EStateM.bind, started] at ended
      split at ended
      · cases ended
      · rename_i evaluated
        cases ended
        exact evaluated
    rw [visits, started]
    exact BoxScript.visit_of_fault accepted admits types ran fault

end Program

/-! ## Sources -/

/-- Whether a source is checked without errors, and the program that it spells passes a test under
its annotations. -/
def passes (file : String) (source : List Char) (test : Program → Annotations → Bool) : Bool :=
  match checkSource file source with
  | .ok (program, notes) => test program notes
  | .error _ => false

theorem checked_of_passes {file : String} {source : List Char} {test : Program → Annotations → Bool}
    (passed : passes file source test = true) :
    ∃ program notes, checkSource file source = .ok (program, notes) ∧
      test program notes = true := by
  unfold passes at passed
  split at passed
  · rename_i program notes checked
    exact ⟨program, notes, checked, passed⟩
  · cases passed

/-- Whether the program that a source spells comes by an expression such that a test passes. -/
def comesBy (file : String) (source : List Char) (fuel : Nat)
    (test : Annotations → FrameId → Expr → Machine → Bool) : Bool :=
  passes file source fun program notes =>
    (program.visits notes fuel (.fresh .unlimited)).any fun
      | ⟨.expr frame e, machine⟩ => test notes frame e machine
      | _ => false

theorem visited_of_comesBy {file : String} {source : List Char} {fuel : Nat}
    {test : Annotations → FrameId → Expr → Machine → Bool}
    (passed : comesBy file source fuel test = true) :
    ∃ program notes frame e machine, checkSource file source = .ok (program, notes) ∧
      ⟨.expr frame e, machine⟩ ∈ program.visits notes fuel (.fresh .unlimited) ∧
      test notes frame e machine = true := by
  obtain ⟨program, notes, checked, found⟩ := checked_of_passes passed
  obtain ⟨visit, visited, holds⟩ := List.any_eq_true.mp found
  split at holds
  · rename_i frame e machine
    exact ⟨program, notes, frame, e, machine, checked, visited, holds⟩
  · cases holds

/-- Whether a declaration is that of a method. -/
def Declaration.isMethod (decl : Declaration) : Bool :=
  match decl.kind with
  | .method => true
  | _ => false

theorem Declaration.isMethod_iff {decl : Declaration} :
    decl.isMethod = true ↔ decl.kind = .method := by
  unfold Declaration.isMethod
  split
  · simp_all
  · simp_all

/-- Whether the program that a source spells comes by a bare name that means a declaration such that
a test passes. -/
def comesByName (file : String) (source : List Char) (fuel : Nat)
    (test : Declaration → EStateM.Result Halt Machine Value → Bool) : Bool :=
  comesBy file source fuel fun notes frame e machine =>
    match e with
    | .symbol mark _ => (notes.declOf? mark.id).any fun decl =>
      test decl (evaluate notes 1 (.expr frame e) machine)
    | _ => false

theorem visited_of_comesByName {file : String} {source : List Char} {fuel : Nat}
    {test : Declaration → EStateM.Result Halt Machine Value → Bool}
    (passed : comesByName file source fuel test = true) :
    ∃ program notes frame mark name machine decl, checkSource file source = .ok (program, notes) ∧
      ⟨.expr frame (.symbol mark name), machine⟩ ∈
        program.visits notes fuel (.fresh .unlimited) ∧
      notes.declOf? mark.id = some decl ∧
      test decl (evaluate notes 1 (.expr frame (.symbol mark name)) machine) = true := by
  obtain ⟨program, notes, frame, e, machine, checked, visited, holds⟩ := visited_of_comesBy passed
  split at holds
  · rename_i mark name
    obtain ⟨decl, declared, passes⟩ := (Option.any_eq_true _ _).mp holds
    exact ⟨program, notes, frame, mark, name, machine, decl, checked, visited, declared, passes⟩
  · cases holds

end BoxScript
