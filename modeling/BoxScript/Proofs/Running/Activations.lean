import BoxScript.Proofs.Running.Chronicle

/-!
# Lexical activations

Which activation lies inside which is told by the course of a run alone (`Begins`): a block or body
lies inside the activation that goes on when it is entered; the call of a function, and an instance
of a box, inside the activation at whose start the function or box was hoisted (`Hoists`); and the
call of a method inside its receiver. So each activation has its lexical stack (`Lexical`), from
itself out to the frame of the builtins.

A run of an accepted program says of each activation exactly one way in which it began
(`Program.begins_unique`), and the frames around the frame of an activation are those of its lexical
stack (`exists_stack`).
-/

set_option autoImplicit false

namespace BoxScript

/-! ## Hoisting -/

/-- Whether a statement declares a function or box. -/
def Stmt.Makes : Stmt → Value → Prop
  | .function decl, .function closure => closure.decl = decl
  | .box decl, .type (.box cls) => cls.decl = decl.mark.id
  | _, _ => False

/-- Whether a function or box was hoisted in an activation: the frame of the activation holds it
when the statements start in which it is declared. -/
def Hoists (run : List Passage) (value : Value) (home : FrameId) : Prop :=
  ∃ passage ∈ run, passage.activation = home ∧ ∃ body, passage.Starts body ∧
    (∃ s ∈ body, s.Makes value) ∧
    ∃ name, passage.machine.heap.getLocal? home name = some value

/-! ## Beginnings -/

/-- What a passage begins, and inside which activation or instance. -/
inductive Passage.Begins (notes : Annotations) (run : List Passage) (passage : Passage) :
    ScopeKind → FrameId → Prop
  | statements {body : List Stmt} (enters : passage.task.statements? = some body) :
      Begins notes run passage .block passage.activation
  | function {decl : FunctionDecl} {outer home : FrameId} {closure : Closure}
      {arguments given : List Value} {span place : Span}
      (task : passage.task = .invoke decl outer arguments span)
      (asker : passage.asker = some (.call (.function closure) given place))
      (hoisted : Hoists run (.function closure) home) :
      Begins notes run passage .function home
  | method {decl called : FunctionDecl} {outer receiver : FrameId} {arguments given : List Value}
      {span place : Span} (task : passage.task = .invoke decl outer arguments span)
      (asker : passage.asker = some (.call (.method receiver called) given place)) :
      Begins notes run passage .function receiver
  | «instance» {frame home : FrameId} {mark : Mark} {name : String} {cls : BoxClass}
      (task : passage.task = .expr frame (.create mark name))
      (named : Eval.typeNamed notes passage.activation mark name passage.machine =
        .ok (.box cls) passage.machine)
      (hoisted : Hoists run (.type (.box cls)) home) :
      Begins notes run passage .box home

/-- What begins in the course of a run, as which activation or instance, and inside which. The
program is the first to begin. -/
inductive Begins (notes : Annotations) (run : List Passage) : ScopeKind → FrameId → FrameId → Prop
  | program {passage : Passage} (first : run.head? = some passage) :
      Begins notes run .root passage.activation 0
  | inside {passage : Passage} {kind : ScopeKind} {around : FrameId} (passed : passage ∈ run)
      (begins : passage.Begins notes run kind around) :
      Begins notes run kind passage.next around

/-- The activations and instances around an activation, itself included, from the inside out. Last
come the builtins. -/
inductive Lexical (notes : Annotations) (run : List Passage) :
    FrameId → List (ScopeKind × FrameId) → Prop
  | builtins : Lexical notes run 0 [(.builtin, 0)]
  | inside {kind : ScopeKind} {activation around : FrameId} {stack : List (ScopeKind × FrameId)}
      (begins : Begins notes run kind activation around) (outer : Lexical notes run around stack) :
      Lexical notes run activation ((kind, activation) :: stack)

/-! ## What is hoisted -/

/-- A value that statements may make in a frame, if it is a function or a box. -/
def Value.HoistedFrom (body : List Stmt) (home : FrameId) : Value → Prop
  | function closure => closure.frame = home ∧ ∃ s ∈ body, s.Makes (.function closure)
  | type (.box cls) => cls.frame = home ∧ ∃ s ∈ body, s.Makes (.type (.box cls))
  | _ => True

/-- Whether a passage at the start of statements has nothing in its frame but what they make. -/
def Passage.Hoisted (passage : Passage) : Prop :=
  ∀ body, passage.Starts body → ∀ name value,
    passage.machine.heap.getLocal? passage.activation name = some value →
    value.HoistedFrom body passage.activation

variable {notes : Annotations}

theorem Eval.hoistedFrom_of_declares {frame : FrameId} {body : List Stmt} {s : Stmt}
    {entry : String × Binding} {value : Value} (declares : Declares notes frame s entry)
    (member : s ∈ body) (has : entry.2.value = some value) : value.HoistedFrom body frame := by
  cases declares with
  | function =>
    cases has
    exact ⟨rfl, _, member, rfl⟩
  | box =>
    cases has
    exact ⟨rfl, _, member, rfl⟩
  | struct =>
    cases has
    trivial
  | var => cases has

/-- What a frame holds that was just entered is made by its statements. -/
theorem Eval.hoistedFrom_of_entered {machine : Machine} {outer : Option FrameId}
    {entries : List (String × Binding)} {number : Nat} {body : List Stmt}
    (declares : ∀ entry ∈ entries, ∃ s ∈ body, Declares notes machine.heap.frames.size s entry)
    {name : String} {value : Value}
    (found : (entered machine outer entries number).heap.getLocal? machine.heap.frames.size name =
      some value) : value.HoistedFrom body machine.heap.frames.size := by
  rw [getLocal?_entered] at found
  obtain ⟨binding, looked, has⟩ := Option.bind_eq_some_iff.mp found
  rcases Frame.lookup_bindAll looked with member | none
  · obtain ⟨s, inBody, declared⟩ := declares _ member
    exact hoistedFrom_of_declares declared inBody has
  · cases none

theorem hoisted_ask {fuel : Nat} {passage : Passage} {visit : Visit}
    (asked : visit ∈ (clause notes passage.task).asked (evaluate notes fuel) passage.machine) :
    (passage.ask visit).Hoisted := by
  rintro body ⟨⟨frame, task⟩, enters⟩ name value has
  have entered : passage.task.enters = true := enters _ rfl
  have inside : (passage.ask visit).activation = passage.next := if_pos entered
  rw [inside] at has ⊢
  rcases Task.enters_cases entered with ⟨own, statements⟩ | ⟨decl, outer, arguments, span, call⟩
  · obtain ⟨outer, entries, number, _, _, declares, plan⟩ :=
      Task.enter_eq notes statements passage.machine
    rw [(plan (evaluate notes fuel)).1] at asked
    cases List.mem_singleton.mp asked
    cases task
    exact Eval.hoistedFrom_of_entered declares has
  · rw [call] at asked
    have isBlock := Clause.task_of_asked_invoke asked
    cases isBlock.symm.trans task

/-- What comes up at the start of statements while a task is evaluated. -/
theorem hoisted_of_passages {fuel : Nat} {passage inner : Passage} (hoisted : passage.Hoisted)
    (passed : inner ∈ passages notes fuel passage) : inner.Hoisted := by
  induction fuel generalizing passage with
  | zero =>
    cases List.mem_singleton.mp passed
    exact hoisted
  | succ fuel ih =>
    rcases mem_passages_cases passed with rfl | ⟨less, visit, same, asked, found⟩
    · exact hoisted
    · cases same
      exact ih (hoisted_ask asked) found

/-! ## All functions and boxes are hoisted, and all frames begin -/

/-- The ledger of a run: functions and boxes are hoisted in the frame that they remember, and the
frame around a frame is that of what it began inside. -/
def ledger (notes : Annotations) (run : List Passage) : Ledger where
  made
    | .function closure => Hoists run (.function closure) closure.frame
    | .type (.box cls) => Hoists run (.type (.box cls)) cls.frame
    | _ => True
  lies activation parent := (activation = 0 ∧ parent = none) ∨
    ∃ kind around, parent = some around ∧ Begins notes run kind activation around

/-- The ledger of a run has what each of its passages adds. -/
theorem covers_ledger {run : List Passage} {passage : Passage} (passed : passage ∈ run)
    (hoisted : passage.Hoisted) : (ledger notes run).Covers notes passage where
  starts := by
    intro body starts name value has
    have made := hoisted body starts name value has
    unfold Value.Derived
    split
    · obtain ⟨home, makes⟩ := made
      exact ⟨passage, passed, home.symm, body, starts, makes, name, home ▸ has⟩
    · obtain ⟨home, makes⟩ := made
      exact ⟨passage, passed, home.symm, body, starts, makes, name, home ▸ has⟩
    · trivial
  enters := fun enters => .inr ⟨.block, _, rfl, .inside passed (.statements enters)⟩
  calls := by
    intro decl outer callee arguments given span place task asker calls derived
    refine .inr ⟨.function, outer, rfl, .inside passed ?_⟩
    cases callee with
    | function closure =>
      obtain ⟨_, rfl⟩ := calls
      exact .function task asker derived
    | method receiver called =>
      obtain ⟨_, rfl⟩ := calls
      exact .method task asker
    | _ => cases calls
  creates := fun task named derived =>
    .inr ⟨.box, _, rfl, .inside passed (.instance task named derived)⟩

namespace Program

variable {program : Program} {fuel : Nat} {output : Sink}

theorem hoisted {passage : Passage}
    (passed : passage ∈ program.passages notes fuel (.fresh output)) : passage.Hoisted := by
  obtain ⟨entries, number, started, declares⟩ := Eval.start_fresh notes program output
  rw [passages, started] at passed
  refine hoisted_of_passages ?_ passed
  rintro body ⟨⟨frame, task⟩, _⟩ name value has
  cases task
  exact Eval.hoistedFrom_of_entered declares has

/-- The frame of the builtins is on any ledger that has it outermost. -/
theorem derived_builtins {ledger : Ledger} (lies : ledger.lies 0 none) :
    (Eval.entered (.fresh output) none
      (SymbolTable.builtins.filterMap Eval.builtinBinding?) 0).heap.Derived ledger := by
  have empty : (Machine.fresh output).heap.Derived ledger := Heap.derived_empty
  refine empty.entered (fun name value found => ?_) lies 0
  obtain ⟨binding, looked, has⟩ := Option.bind_eq_some_iff.mp found
  rcases Frame.lookup_bindAll looked with member | none
  · obtain ⟨⟨builtin, kind⟩, _, same⟩ := List.mem_filterMap.mp member
    obtain ⟨bound, is, same⟩ := Option.map_eq_some_iff.mp same
    cases same
    cases has
    cases kind <;> cases is <;> trivial
  · cases none

/-- All that a run has in hand at a passage is on its ledger. -/
theorem derived {passage : Passage}
    (passed : passage ∈ program.passages notes fuel (.fresh output)) :
    passage.Derived (ledger notes (program.passages notes fuel (.fresh output))) := by
  obtain ⟨entries, number, started, _⟩ := Eval.start_fresh notes program output
  let outer := Eval.entered (.fresh output) none
    (SymbolTable.builtins.filterMap Eval.builtinBinding?) 0
  let first : Passage :=
    ⟨1, none, .sequence 1 program.body, Eval.entered outer (some 0) entries number⟩
  have run : program.passages notes fuel (.fresh output) = BoxScript.passages notes fuel first := by
    rw [passages, started]
  have covers : ∀ inner ∈ BoxScript.passages notes fuel first,
      (ledger notes (BoxScript.passages notes fuel first)).Covers notes inner :=
    fun inner member => covers_ledger member (hoisted (run ▸ member))
  have starts : first.Starts program.body :=
    ⟨⟨1, rfl⟩, fun asker is => by cases is⟩
  have lies : (ledger notes (BoxScript.passages notes fuel first)).lies 1 (some 0) :=
    .inr ⟨.root, 0, rfl, .program (head?_passages first)⟩
  have derivedFirst : first.machine.heap.Derived
      (ledger notes (BoxScript.passages notes fuel first)) := by
    have derivedOuter : outer.heap.Derived (ledger notes (BoxScript.passages notes fuel first)) :=
      derived_builtins (.inl ⟨rfl, rfl⟩)
    refine derivedOuter.entered (fun name value found => ?_) lies number
    exact (covers first (mem_passages_self first)).starts starts
      ((Eval.getLocal?_entered outer (some 0) entries number name).trans found)
  rw [run] at passed ⊢
  exact (Passage.stays_of_covers ⟨derivedFirst, .inl trivial⟩ (Task.here_of_frame rfl) covers).1
    passage passed

end Program

/-! ## Stacks -/

/-- The frames around a frame are those of a lexical stack of it. -/
theorem exists_stack {run : List Passage} {heap : Heap} (derived : heap.Derived (ledger notes run))
    (nested : heap.Nested) {activation : FrameId} (bound : activation < heap.frames.size) :
    ∃ stack, Lexical notes run activation stack ∧
      heap.chain activation = stack.map Prod.snd := by
  induction activation using Nat.strongRecOn with
  | ind activation ih =>
    have present := Array.getElem?_eq_getElem bound
    rw [Heap.chain_eq nested present]
    rcases derived.lies present with ⟨rfl, outermost⟩ | ⟨kind, around, inside, begins⟩
    · rw [outermost]
      exact ⟨_, .builtins, rfl⟩
    · have older := nested present inside
      obtain ⟨stack, lexical, chain⟩ := ih around older (older.trans bound)
      rw [inside]
      exact ⟨_, .inside begins lexical, congrArg (activation :: ·) chain⟩

section Unique

variable {run : List Passage} (hoisted : ∀ passage ∈ run, passage.Hoisted)

include hoisted

/-- A function or box remembers the frame in which it was hoisted. -/
theorem frame_of_hoists {closure : Closure} {home : FrameId}
    (hoists : Hoists run (.function closure) home) : closure.frame = home := by
  obtain ⟨passage, passed, rfl, body, starts, _, name, has⟩ := hoists
  exact (hoisted passage passed body starts name _ has).1

theorem frame_of_hoists_box {cls : BoxClass} {home : FrameId}
    (hoists : Hoists run (.type (.box cls)) home) : cls.frame = home := by
  obtain ⟨passage, passed, rfl, body, starts, _, name, has⟩ := hoists
  exact (hoisted passage passed body starts name _ has).1

/-- A passage begins one thing at most. -/
theorem Passage.Begins.unique {passage : Passage} {kind other : ScopeKind} {around outer : FrameId}
    (first : passage.Begins notes run kind around) (second : passage.Begins notes run other outer) :
    kind = other ∧ around = outer := by
  cases first with
  | statements enters =>
    cases second with
    | statements _ => exact ⟨rfl, rfl⟩
    | function task | method task | «instance» task =>
      rw [task] at enters
      cases enters
  | function task asker hoists =>
    cases second with
    | statements enters =>
      rw [task] at enters
      cases enters
    | function _ askerToo hoistsToo =>
      cases asker.symm.trans askerToo
      exact ⟨rfl, (frame_of_hoists hoisted hoists).symm.trans (frame_of_hoists hoisted hoistsToo)⟩
    | method _ askerToo => cases asker.symm.trans askerToo
    | «instance» taskToo => cases task.symm.trans taskToo
  | method task asker =>
    cases second with
    | statements enters =>
      rw [task] at enters
      cases enters
    | function _ askerToo => cases asker.symm.trans askerToo
    | method _ askerToo =>
      cases asker.symm.trans askerToo
      exact ⟨rfl, rfl⟩
    | «instance» taskToo => cases task.symm.trans taskToo
  | «instance» task named hoists =>
    cases second with
    | statements enters =>
      rw [task] at enters
      cases enters
    | function taskToo | method taskToo => cases task.symm.trans taskToo
    | «instance» taskToo namedToo hoistsToo =>
      cases task.symm.trans taskToo
      cases named.symm.trans namedToo
      exact ⟨rfl, (frame_of_hoists_box hoisted hoists).symm.trans
        (frame_of_hoists_box hoisted hoistsToo)⟩

end Unique

/-! ## Activations have frames for scopes of their kind -/

theorem Passage.Begins.begins? {run : List Passage} {passage : Passage} {kind : ScopeKind}
    {around : FrameId} (begins : passage.Begins notes run kind around) :
    passage.task.begins? = some kind := by
  cases begins with
  | statements enters =>
    rcases Task.statements_cases enters with ⟨outer, b, is, _⟩ | ⟨outer, s, is, noBlock, _⟩
    · rw [is]
      rfl
    · rw [is]
      cases s with
      | block b => exact absurd rfl (noBlock b)
      | _ => rfl
  | function task | method task | «instance» task =>
    rw [task]
    rfl

/-- What lexical stacks are made of. -/
theorem Lexical.of_mem {run : List Passage} {activation frame : FrameId} {kind : ScopeKind}
    {stack : List (ScopeKind × FrameId)} (lexical : Lexical notes run activation stack)
    (member : (kind, frame) ∈ stack) :
    (kind = .builtin ∧ frame = 0) ∨ ∃ around, Begins notes run kind frame around := by
  induction lexical with
  | builtins =>
    cases List.mem_singleton.mp member
    exact .inl ⟨rfl, rfl⟩
  | inside begins _ ih =>
    rcases List.mem_cons.mp member with same | outer
    · cases same
      exact .inr ⟨_, begins⟩
    · exact ih outer

section Chronicle

variable {known : Analysis} {w : World} {run : List Passage} {moments : List Moment}
  (chronicle : Chronicle known w run moments)

include chronicle

/-- No two passages begin the same activation or instance. -/
theorem Chronicle.eq_of_next {first second : Passage} (passed : first ∈ run)
    (passedToo : second ∈ run) {kind other : ScopeKind} (begins : first.task.begins? = some kind)
    (beginsToo : second.task.begins? = some other) (same : first.next = second.next) :
    first = second := by
  have before : ∀ {earlier later : Moment} {kind : ScopeKind}, later ∈ moments →
      earlier.passage.task.begins? = some kind → earlier.Since known later.world →
      earlier.passage.next < later.passage.next := by
    intro earlier later kind member begins since
    have size : later.world.frames.length = later.passage.next :=
      (chronicle.sound later member).types.frameCount
    exact size ▸ (since.begun kind begins).lt_length
  obtain ⟨m, member, rfl⟩ := chronicle.exists_moment passed
  obtain ⟨n, memberToo, rfl⟩ := chronicle.exists_moment passedToo
  rcases chronicle.since_or member memberToo with rfl | since | since
  · rfl
  · exact absurd same (Nat.ne_of_lt (before memberToo begins since))
  · exact absurd same.symm (Nat.ne_of_lt (before member beginsToo since))

/-- What a passage begins is new. -/
theorem Chronicle.length_le_next {passage : Passage} (passed : passage ∈ run) :
    w.frames.length ≤ passage.next := by
  obtain ⟨moment, member, rfl⟩ := chronicle.exists_moment passed
  have size : moment.world.frames.length = moment.passage.next :=
    (chronicle.sound moment member).types.frameCount
  exact size ▸ World.length_le (chronicle.grown moment member)

/-- The frame of an activation stands for a scope of its kind, from its beginning on. -/
theorem Chronicle.isOf_of_begun {passage : Passage} {kind : ScopeKind} {moment : Moment}
    (passed : passage ∈ run) (begins : passage.task.begins? = some kind)
    (member : moment ∈ moments) (there : passage.next < moment.world.frames.length) :
    moment.world.IsOf known kind passage.next := by
  obtain ⟨own, ownMember, rfl⟩ := chronicle.exists_moment passed
  have size : own.world.frames.length = own.passage.next :=
    (chronicle.sound own ownMember).types.frameCount
  rcases chronicle.since_or ownMember member with rfl | since | since
  · exact absurd (size ▸ there) (Nat.lt_irrefl _)
  · exact since.begun kind begins
  · exact absurd (size ▸ lt_of_lt_of_le there (World.length_le since.grown)) (Nat.lt_irrefl _)

end Chronicle

/-! ## Runs of accepted programs -/

namespace Program

variable {program : Program} {fuel : Nat} {output : Sink}

theorem activation_of_first {passage : Passage}
    (first : (program.passages notes fuel (.fresh output)).head? = some passage) :
    passage.activation = 1 := by
  obtain ⟨entries, number, started, _⟩ := Eval.start_fresh notes program output
  rw [passages, started] at first
  cases (head?_passages _).symm.trans first
  rfl

/-- Each activation and instance begins in one way. -/
theorem begins_unique (accepted : (program.analysis notes).Accepted) {kind other : ScopeKind}
    {activation around outer : FrameId}
    (first : Begins notes (program.passages notes fuel (.fresh output)) kind activation around)
    (second : Begins notes (program.passages notes fuel (.fresh output)) other activation outer) :
    kind = other ∧ around = outer := by
  obtain ⟨w, moments, chronicle, _, two⟩ := exists_chronicle accepted
  have later : ∀ {passage root : Passage},
      passage ∈ program.passages notes fuel (.fresh output) →
      (program.passages notes fuel (.fresh output)).head? = some root →
      root.activation ≠ passage.next := by
    intro passage root passed head same
    have least := chronicle.length_le_next passed
    rw [two, ← same, activation_of_first head] at least
    exact absurd least (by decide)
  generalize same : activation = begun at second
  cases first with
  | program head =>
    cases second with
    | program _ => exact ⟨rfl, rfl⟩
    | inside passed _ => exact absurd same (later passed head)
  | inside passed begins =>
    cases second with
    | program head => exact absurd same.symm (later passed head)
    | inside passedToo beginsToo =>
      cases chronicle.eq_of_next passed passedToo begins.begins? beginsToo.begins? same
      exact begins.unique (fun _ member => hoisted member) beginsToo

/-- Nothing in a run begins as the frame of the builtins. -/
theorem not_begins_builtins (accepted : (program.analysis notes).Accepted) {kind : ScopeKind}
    {activation around : FrameId}
    (begins : Begins notes (program.passages notes fuel (.fresh output)) kind activation around) :
    activation ≠ 0 := by
  obtain ⟨w, moments, chronicle, _, two⟩ := exists_chronicle accepted
  cases begins with
  | program first =>
    rw [activation_of_first first]
    decide
  | inside passed _ =>
    have least := chronicle.length_le_next passed
    rw [two] at least
    exact Nat.ne_of_gt (Nat.lt_of_lt_of_le Nat.zero_lt_two least)

/-- An activation has one lexical stack at most. -/
theorem lexical_unique (accepted : (program.analysis notes).Accepted) {activation : FrameId}
    {stack other : List (ScopeKind × FrameId)}
    (lexical : Lexical notes (program.passages notes fuel (.fresh output)) activation stack)
    (lexicalToo : Lexical notes (program.passages notes fuel (.fresh output)) activation other) :
    stack = other := by
  induction lexical generalizing other with
  | builtins =>
    generalize same : 0 = outermost at lexicalToo
    cases lexicalToo with
    | builtins => rfl
    | inside begins _ => exact absurd same.symm (not_begins_builtins accepted begins)
  | inside begins _ ih =>
    cases lexicalToo with
    | builtins => exact absurd rfl (not_begins_builtins accepted begins)
    | inside beginsToo outer =>
      obtain ⟨rfl, rfl⟩ := begins_unique accepted begins beginsToo
      rw [ih outer]

/-- At a passage, the frames in a lexical stack are for scopes of their kinds. -/
theorem isOf_of_lexical (accepted : (program.analysis notes).Accepted) {w : World}
    {moments : List Moment} (chronicle : Chronicle (program.analysis notes) w
      (program.passages notes fuel (.fresh output)) moments)
    (root : w.IsOf (program.analysis notes) .root 1) {moment : Moment} (member : moment ∈ moments)
    {activation frame : FrameId} {kind : ScopeKind} {stack : List (ScopeKind × FrameId)}
    (lexical : Lexical notes (program.passages notes fuel (.fresh output)) activation stack)
    (inStack : (kind, frame) ∈ stack) (there : frame < moment.world.frames.length) :
    moment.world.IsOf (program.analysis notes) kind frame := by
  have types := (chronicle.sound moment member).types
  rcases lexical.of_mem inStack with ⟨rfl, rfl⟩ | ⟨around, begins⟩
  · obtain ⟨stored, present, stands⟩ := types.frame (List.getElem?_eq_getElem there)
    rcases stands.lies with ⟨_, builtin, _⟩ | ⟨_, _, _, _, older, _⟩
    · obtain ⟨names, order, found⟩ := accepted.reflects.builtin
      refine ⟨SymbolTable.builtinScope, _, ?_, found, rfl⟩
      rw [← builtin]
      exact World.scope?_of_frames (List.getElem?_eq_getElem there)
    · exact absurd older (Nat.not_lt_zero _)
  · cases begins with
    | program first =>
      rw [activation_of_first first]
      exact root.mono (chronicle.grown moment member)
    | inside passed begins => exact chronicle.isOf_of_begun passed begins.begins? member there

/-- Where an expression is evaluated, the frames around are those of the lexical stack of the
activation that goes on, and stand for the scopes around the expression. -/
theorem exists_stack_of_expr (accepted : (program.analysis notes).Accepted) {passage : Passage}
    (passed : passage ∈ program.passages notes fuel (.fresh output)) {frame : FrameId} {e : Expr}
    (task : passage.task = .expr frame e) {scope : ScopeId} {expectation : Expectation}
    (step : .expr scope expectation e ∈ Walk.program program.body) :
    frame = passage.activation ∧ ∃ (w : World) (stack : List (ScopeKind × FrameId)),
      w.Types (program.analysis notes) passage.machine.heap ∧ w.scope? frame = some scope ∧
      (program.analysis notes).Walked scope e ∧
      (∀ other, Lexical notes (program.passages notes fuel (.fresh output)) frame other ↔
        other = stack) ∧
      passage.machine.heap.chain frame = stack.map Prod.snd ∧
      List.Forall₂ (fun entry around => w.scope? entry.2 = some around ∧
        (notes.symbols.scopes[around]?).map Scope.kind = some entry.1)
        stack (notes.symbols.chain scope) := by
  obtain ⟨w, moments, chronicle, root, _⟩ := exists_chronicle accepted
  have here : frame = passage.activation := here_of_passage passed frame (task ▸ rfl)
  obtain ⟨moment, member, rfl⟩ := chronicle.exists_moment passed
  obtain ⟨types, admits⟩ := chronicle.sound moment member
  obtain ⟨home, walked⟩ : moment.world.scope? frame = some scope ∧
      (program.analysis notes).Walked scope e := by
    rw [task] at admits
    obtain ⟨promise, admits⟩ := admits
    cases admits with
    | expr home walked =>
      obtain ⟨_, there⟩ := walked.step
      cases accepted.distinct.scope_eq there step
      exact ⟨home, walked⟩
  obtain ⟨stack, lexical, chain⟩ :=
    exists_stack (derived passed).heap types.nested (types.lt_size home)
  refine ⟨here, moment.world, stack, types, home, walked, fun other => ⟨fun also => ?_, ?_⟩,
    chain, ?_⟩
  · exact lexical_unique accepted also lexical
  · rintro rfl
    exact lexical
  · have mirrors := types.mirrors accepted home
    rw [chain, World.Mirrors, List.forall₂_map_left_iff] at mirrors
    have isOf : ∀ entry ∈ stack,
        moment.world.IsOf (program.analysis notes) entry.1 entry.2 := by
      intro entry inStack
      obtain ⟨around, _, stands⟩ := exists_of_forall₂_left mirrors inStack
      obtain ⟨shape, shaped, _⟩ := Option.map_eq_some_iff.mp stands
      exact isOf_of_lexical accepted chronicle root member lexical inStack
        (List.getElem?_eq_some_iff.mp shaped).1
    refine ((List.forall₂_and_left _ _).mpr ⟨isOf, mirrors⟩).imp ?_
    rintro ⟨kind, inside⟩ around ⟨⟨other, found, standsToo, present, rfl⟩, stands⟩
    cases stands.symm.trans standsToo
    exact ⟨stands, congrArg (Option.map Scope.kind) present⟩

end Program

end BoxScript
