import BoxScript.Proofs.Running.Expressions

/-!
# Calls and statements run safely

The plans of calls and statements are safe. What they come to is told by `World.Completes`:
statements that were found to return always do not run to their end, and what they return becomes a
value of the result type of the function around them. So a call has a value of that type.
-/

set_option autoImplicit false

namespace BoxScript

open Walk Step

/-- A type that is the same as a function type. -/
theorem Ty.exists_function_of_same {ty result : Ty} {params : List Ty}
    (same : ty.same (.function params result) = true) :
    ∃ ps r, ty = .function ps r ∧ List.Forall₂ (fun a b => Ty.same a b = true) ps params ∧
      r.same result = true := by
  cases ty with
  | function ps r =>
    simp only [Ty.same, Bool.and_eq_true] at same
    exact ⟨ps, r, rfl, Ty.sameAll_iff.mp same.1, same.2⟩
  | _ => cases same

namespace World

variable {known : Analysis} {w : World}

theorem Suits.of_same {param other : Ty} {value : Value} (suits : w.Suits known param value)
    (same : other.same param = true) : w.Suits known other value := by
  obtain ⟨ty, shape, fits⟩ := suits
  exact ⟨ty, shape, Ty.isAssignableTo_trans fits (Ty.isAssignableTo_of_same (Ty.same_symm same))⟩

theorem suit_of_same {params others : List Ty} {values : List Value}
    (suit : List.Forall₂ (w.Suits known) params values)
    (same : List.Forall₂ (fun a b => Ty.same a b = true) others params) :
    List.Forall₂ (w.Suits known) others values := by
  induction same generalizing values with
  | nil =>
    cases suit
    exact .nil
  | cons first _ ih =>
    cases suit with
    | cons value rest => exact .cons (value.of_same first) (ih rest)

theorem Completes.mono {later : World} {enclosing : Option FunctionDecl} {node : Option NodeId}
    {completion : Completion} (completes : w.Completes known enclosing node completion)
    (grown : w ≤ later) : later.Completes known enclosing node completion := by
  cases completion with
  | normal => exact completes
  | returned value =>
    intro decl same
    obtain ⟨ty, typed, shape⟩ := completes decl same
    exact ⟨ty, typed, shape.mono grown⟩

/-- Whether statements return does not matter for what they return. -/
theorem Completes.imp {enclosing : Option FunctionDecl} {node other : Option NodeId}
    {completion : Completion} (completes : w.Completes known enclosing node completion)
    (implies : ∀ id, other = some id → known.notes.returns? id = some true →
      ∃ first, node = some first ∧ known.notes.returns? first = some true) :
    w.Completes known enclosing other completion := by
  cases completion with
  | returned value => exact completes
  | normal =>
    intro id same returns
    obtain ⟨first, is, returnsToo⟩ := implies id same returns
    exact completes first is returnsToo

end World

/-- Whether a statement returns, where that is known at once. -/
theorem Analysis.Accepted.returns {known : Analysis} (accepted : known.Accepted) {mark : Mark}
    {value : Bool} (step : .returns mark value ∈ known.steps) :
    known.notes.returns? mark.id = some value := by
  have noted := accepted.noted _ step (⟨mark.id, .returns⟩, .flag value) List.mem_cons_self
  simp only [Annotations.returns?, FactStore.known?, noted]

/-- A frame for a scope that the walk opened. -/
theorem World.isOf_of_opened {known : Analysis} {w : World} (accepted : known.Accepted)
    {scope around : ScopeId} {kind : ScopeKind}
    (opened : .openScope scope kind around ∈ known.steps) {frame : FrameId}
    (stands : w.scope? frame = some scope) : w.IsOf known kind frame := by
  obtain ⟨names, order, present⟩ := accepted.reflects.opened opened
  exact ⟨scope, _, stands, present, rfl⟩

namespace Clause

open Plan

variable {known : Analysis} {w : World} {excuse : Halt → Prop}

/-! ## Calls -/

theorem safe_call {callee : Value} {arguments : List Value} {span : Span} {params : List Ty}
    {result : Ty} (shape : w.HasShape known (.function params result) callee)
    (suit : List.Forall₂ (w.Suits known) params arguments) :
    (call callee arguments span).Safe known
      (Excused known.notes (.call callee arguments span)) w fun later value =>
        later.HasShape known result value := by
  cases shape with
  | null => exact safe_step (Eval.safe_fail fun fault => by simp [Halt.isFault] at fault)
  | function signature same =>
    obtain ⟨ps, r, rfl, paramsSame, resultSame⟩ := Ty.exists_function_of_same same
    have suitToo := World.suit_of_same suit paramsSame
    cases signature with
    | function callable =>
      exact safe_run (.invoke callable suitToo) fun _ _ _ shape => shape.of_same resultSame
    | method callable _ _ =>
      exact safe_run (.invoke callable suitToo) fun _ _ _ shape => shape.of_same resultSame
    | constructor made =>
      exact safe_step ((Eval.safe_construct made suitToo).mono
        fun _ _ _ shape => shape.of_same resultSame)
    | @builtin function =>
      cases function
      have printed : Eval.Safe known
          (Excused known.notes (.call (.builtin .print) arguments span)) w
          (Eval.callBuiltin .print arguments span)
          fun later value => later.HasShape known .string value :=
        Eval.safe_callBuiltin rfl suitToo rfl
      exact safe_step (printed.mono fun _ _ _ shape => shape.of_same resultSame)

/-- What a call comes to that its body completes. -/
theorem hasShape_of_completes (accepted : known.Accepted) {scope inner : ScopeId}
    {decl : FunctionDecl} {result : Ty}
    (walked : FunctionWalked known.steps scope inner decl)
    (typed : Rule.resultType? known.notes decl = some result) {completion : Completion}
    (completes : w.Completes known (some decl) (some decl.body.mark.id) completion) :
    w.HasShape known result (completion.value.coerce (some result)) := by
  cases completion with
  | returned value =>
    obtain ⟨ty, found, shape⟩ := completes decl rfl
    rw [typed] at found
    cases found
    exact shape
  | normal =>
    have isVoid : result = .void := by
      cases written : decl.result with
      | none =>
        simp only [Rule.resultType?, written] at typed
        cases typed
        rfl
      | some type =>
        obtain ⟨ty, found, void⟩ := Rule.returnsAlways_holds_iff.mp
          (accepted.holds _ (walked.returnsAlways type written) _ List.mem_cons_self)
        simp only [Rule.resultType?, written] at typed
        rw [typed] at found
        cases found
        exact Ty.eq_void_of_same (void.resolve_right (completes _ rfl))
    rw [isVoid]
    exact .void

/-- The body of a function may be asked for in a frame for the function. -/
theorem admits_functionBody {frame : FrameId} {scope inner : ScopeId} {decl : FunctionDecl}
    (walked : FunctionWalked known.steps scope inner decl) (stands : w.scope? frame = some inner) :
    Admits known w (.block frame decl.body) fun later completion =>
      later.Completes known (some decl) (some decl.body.mark.id) completion := by
  have owned := walked.body
  generalize decl.body = body at owned
  obtain ⟨mark, statements⟩ := body
  obtain ⟨body, returns⟩ := body_of_block (Nat.lt_succ_self inner) owned
  exact .block stands body returns

/-- A call opens the scope of the function. -/
theorem opens_invoke (accepted : known.Accepted) {decl : FunctionDecl} {outer : FrameId}
    {arguments : List Value} {span : Span} {params : List Ty} {result : Ty}
    (callable : w.Callable known decl outer (.function params result))
    (suit : List.Forall₂ (w.Suits known) params arguments) :
    (invoke known.notes decl outer arguments span).Opens known excuse .function w
      fun later value => later.HasShape known result value := by
  obtain ⟨scope, inner, walked, home, declared⟩ := callable
  obtain ⟨same, sameResult, typed, resultTyped, sameDeclared⟩ := accepted.signature walked
  rw [declared] at sameDeclared
  cases sameDeclared
  have length : decl.parameters.length = arguments.length :=
    typed.length_eq.trans suit.length_eq
  unfold invoke
  rw [if_pos length]
  refine opens_step_bind ((Eval.safe_enterCall accepted home walked typed suit).mono ?_)
  rintro later frame grown ⟨new, stands⟩
  refine ⟨new ▸ World.isOf_of_opened accepted walked.opened stands, ?_⟩
  refine safe_bind (safe_run (admits_functionBody walked stands) fun _ _ _ => id) ?_
  intro last completion further completes
  simp only [declared]
  exact safe_pure (hasShape_of_completes accepted walked resultTyped completes)

/-! ## Blocks and bodies -/

section Statements

variable (accepted : known.Accepted) {frame : FrameId} {scope next : ScopeId}
  {enclosing : Option FunctionDecl} (home : w.scope? frame = some scope)

include accepted home

/-- Statements that are entered open their scope, and run in a frame for it. -/
theorem opens_entered {kind : ScopeKind} {inner : ScopeId} {body : List Stmt}
    (walked : Body known.steps inner kind scope enclosing body) (noBox : kind ≠ .box) :
    (do let frame ← Eval.enter known.notes frame body
        run (.sequence frame body) : Plan Completion).Opens known excuse kind w
      fun later completion =>
        later.Completes known enclosing (body.getLast?.map Stmt.id) completion := by
  have positive : 0 < inner :=
    Nat.lt_of_le_of_lt (Nat.zero_le _) (accepted.ordered.of_openScope walked.opened).1
  refine opens_step_bind ((Eval.safe_enter accepted home walked noBox).mono ?_)
  rintro later inside grown ⟨new, stands⟩
  refine ⟨new ▸ World.isOf_of_opened accepted walked.opened stands, ?_⟩
  exact safe_run (.sequence stands positive (Nat.lt_succ_self inner) walked.owned) fun _ _ _ => id

theorem opens_block {b : Block} {inner : ScopeId}
    (walked : Body known.steps inner .block scope enclosing b.body)
    (returns : .rule (.blockReturns b.mark (b.body.getLast?.map Stmt.id)) ∈ known.steps) :
    (block known.notes frame b).Opens known excuse .block w fun later completion =>
      later.Completes known enclosing (some b.mark.id) completion := by
  refine (opens_entered accepted home walked (by simp)).mono fun later completion _ completes => ?_
  refine completes.imp fun id same returned => ?_
  cases same
  exact Rule.blockReturns_of_holds (accepted.holds _ returns _ List.mem_cons_self) returned

/-- A body that is no block opens a scope of its own. -/
theorem opens_body {s : Stmt} (noBlock : ∀ b, s ≠ .block b) (inside : scope < next)
    (owned : Owned known.steps next (branch scope next enclosing s)) :
    (body known.notes frame s).Opens known excuse .block w fun later completion =>
      later.Completes known enclosing (some s.id) completion := by
  rw [body_of_alone known.notes frame noBlock]
  exact opens_entered accepted home (body_of_branch noBlock inside owned) (by simp)

theorem safe_body {s : Stmt} (inside : scope < next)
    (owned : Owned known.steps next (branch scope next enclosing s)) :
    (body known.notes frame s).Safe known excuse w fun later completion =>
      later.Completes known enclosing (some s.id) completion := by
  by_cases isBlock : ∃ b, s = .block b
  · obtain ⟨⟨mark, statements⟩, rfl⟩ := isBlock
    rw [branch_block] at owned
    obtain ⟨walked, returns⟩ := body_of_block inside owned
    exact safe_run (.block home walked returns) fun _ _ _ => id
  · have noBlock : ∀ b, s ≠ .block b := fun b same => isBlock ⟨b, same⟩
    exact (opens_body accepted home noBlock inside owned).safe

/-! ## Statements one after another -/

omit accepted in
theorem safe_sequence {statements : List Stmt} (positive : 0 < scope) (inside : scope < next)
    (owned : Owned known.steps next (stmts scope next enclosing statements)) :
    (sequence frame statements).Safe known excuse w fun later completion =>
      later.Completes known enclosing (statements.getLast?.map Stmt.id) completion := by
  cases statements with
  | nil => exact safe_pure (by simp [World.Completes])
  | cons s rest =>
    obtain ⟨first, insideFirst, ownedFirst⟩ :=
      owned_of_mem positive inside owned (List.mem_cons_self (a := s) (l := rest))
    have ownedRest := owned.right (ordered_stmt positive inside enclosing s)
    refine safe_bind (safe_run (.stmt home positive insideFirst ownedFirst) fun _ _ _ => id) ?_
    intro later completion grown completes
    cases completion with
    | returned value => exact safe_pure completes
    | normal =>
      refine safe_run (.sequence (World.scope?_mono grown home) positive
        (Nat.lt_add_right _ inside) ownedRest) fun last completion further completesRest => ?_
      cases rest with
      | cons other others => simpa [List.getLast?_cons_cons] using completesRest
      | nil =>
        cases completion with
        | returned value => exact completesRest
        | normal => simpa using completes.mono further

/-! ## Variables -/

/-- The end of the declaration of a variable: the value that it starts with is bound. -/
theorem safe_define {decl : VariableDecl} {ty : Ty} {value : Value}
    (walked : VariableWalked known.steps scope decl)
    (typed : known.notes.declType? decl.mark.id = some ty) (shape : w.HasShape known ty value) :
    (do Eval.update (·.define frame decl.name (some decl.mark.id) value)
        return .normal : Plan Completion).Safe known excuse w fun later completion =>
      later.Completes known enclosing (some decl.mark.id) completion := by
  have member : (⟨decl.name, .var, some decl.mark.id, scope, decl.mark.span.stop.offset,
      decl.mark.span⟩ : Declaration) ∈ contents scope known.steps :=
    List.mem_append_right _ (mem_declared.mpr ⟨_, _, _, _, walked.declares, rfl⟩)
  have defined : Eval.Safe known excuse w
      (Eval.update (·.define frame decl.name (some decl.mark.id) value)) fun _ _ => True := by
    refine Eval.safe_update (fun heap types => types.modifyNames ?_) trivial
    intro found names stands conform
    rw [home] at stands
    cases stands
    refine conform.bind member (by simp) ⟨rfl, ?_, by simp⟩
    intro stored same
    cases same
    exact ⟨ty, typed, shape⟩
  refine safe_bind (safe_step defined) fun last _ further _ => safe_pure ?_
  intro id same
  cases same
  simp [accepted.returns walked.returns]

/-- A variable starts with a value of its type. -/
theorem safe_varDecl {decl : VariableDecl} (walked : VariableWalked known.steps scope decl) :
    (varDecl known.notes frame decl).Safe known excuse w fun later completion =>
      later.Completes known enclosing (some decl.mark.id) completion := by
  have define : ∀ {later : World} {ty : Ty} {value : Value}, w ≤ later →
      known.notes.declType? decl.mark.id = some ty → later.HasShape known ty value →
      (do Eval.update (·.define frame decl.name (some decl.mark.id) value)
          return .normal : Plan Completion).Safe known excuse later fun last completion =>
        last.Completes known enclosing (some decl.mark.id) completion :=
    fun grown typed shape => safe_define accepted (World.scope?_mono grown home) walked typed shape
  have initial : ∀ {e : Expr} {ty actual : Ty}, known.Walked scope e →
      known.notes.typeOf? e.id = some actual → actual.isAssignableTo ty = true →
      (do let value ← run (.expr frame e)
          pure (value.coerce (some ty)) : Plan Value).Safe known excuse w fun later value =>
        later.HasShape known ty value :=
    fun walked typed fits => safe_bind (safe_stored home walked typed fits)
      fun later value _ shape => safe_pure shape
  have found := walked.typed
  obtain ⟨mark, name, form⟩ := decl
  unfold varDecl
  cases form with
  | inferred value =>
    obtain ⟨subset, rule⟩ := found
    obtain ⟨ty, valueTyped, _, _, typed⟩ :=
      Rule.inferred_holds_iff.mp (accepted.holds _ rule _ List.mem_cons_self)
    simp only [VariableDecl.value, typed]
    refine safe_bind (initial ⟨_, subset⟩ valueTyped (Ty.isAssignableTo_refl ty)) ?_
    exact fun later value grown shape => define grown typed shape
  | typed type value =>
    obtain ⟨⟨what, step⟩, initializer⟩ := found
    obtain ⟨ty, written, typed⟩ := accepted.annotated step
    cases value with
    | none =>
      simp only [VariableDecl.value, show known.notes.declType? mark.id = some ty from typed]
      refine safe_bind (safe_step (Eval.safe_change fun heap types => types.default ty)) ?_
      exact fun later value grown shape => define grown typed shape
    | some value =>
      obtain ⟨subset, rule⟩ := initializer value rfl
      obtain ⟨expected, actual, same, valueTyped, fits⟩ :=
        Rule.initializer_holds_iff.mp (accepted.holds _ rule _ List.mem_cons_self)
      rw [written] at same
      cases same
      simp only [VariableDecl.value, show known.notes.declType? mark.id = some ty from typed]
      refine safe_bind (initial ⟨_, subset⟩ valueTyped fits) ?_
      exact fun later value grown shape => define grown typed shape

/-! ## Branches and loops -/

/-- A condition is asked for. -/
theorem safe_test {statement : Conditional} {test : Expr} (walked : known.Walked scope test)
    (rule : .rule (.condition statement test) ∈ known.steps) :
    (run (.condition frame test)).Safe known excuse w fun _ _ => True := by
  obtain ⟨ty, typed, same⟩ :=
    Rule.condition_holds_iff.mp (accepted.holds _ rule _ List.mem_cons_self)
  cases Ty.eq_bool_of_same same
  exact safe_run (.condition home walked typed) fun _ _ _ => id

omit accepted in
theorem safe_loop {test : Expr} {inner : Stmt} (walked : known.Walked scope test)
    (typed : known.notes.typeOf? test.id = some .bool) (inside : scope < next)
    (owned : Owned known.steps next (branch scope next enclosing inner)) :
    (loop frame test inner).Safe known excuse w fun later completion =>
      later.Completes known enclosing none completion := by
  refine safe_bind (safe_run (.condition home walked typed) fun _ _ _ => id) ?_
  intro later holds grown _
  cases holds with
  | false => exact safe_pure (by simp [World.Completes])
  | true =>
    have homeLater := World.scope?_mono grown home
    refine safe_bind (safe_run (.body homeLater inside owned) fun _ _ _ => id) ?_
    intro last completion further completes
    cases completion with
    | returned value => exact safe_pure completes
    | normal =>
      exact safe_run (.loop (World.scope?_mono further homeLater) walked typed inside owned)
        fun _ _ _ => id

theorem safe_while {mark : Mark} {test : Expr} {inner : Stmt} (inside : scope < next)
    (owned : Owned known.steps next (Walk.stmt scope next enclosing (.while mark test inner))) :
    (stmt known.notes frame (.while mark test inner)).Safe known excuse w fun later completion =>
      later.Completes known enclosing (some mark.id) completion := by
  obtain ⟨walked, rule, ownedInner⟩ := owned_while owned
  obtain ⟨ty, typed, same⟩ :=
    Rule.condition_holds_iff.mp (accepted.holds _ rule _ List.mem_cons_self)
  cases Ty.eq_bool_of_same same
  have returns : .returns mark false ∈ known.steps := owned.subset (by simp [Walk.stmt])
  refine safe_run (.loop home ⟨_, walked⟩ typed inside ownedInner) ?_
  intro later completion _ completes
  refine completes.imp fun id same returned => ?_
  cases same
  rw [accepted.returns returns] at returned
  cases returned

theorem safe_ifElse {mark : Mark} {test : Expr} {thenBody : Stmt} {elseBody : Option Stmt}
    (positive : 0 < scope) (inside : scope < next)
    (owned : Owned known.steps next
      (Walk.stmt scope next enclosing (.ifElse mark test thenBody elseBody))) :
    (stmt known.notes frame (.ifElse mark test thenBody elseBody)).Safe known excuse w
      fun later completion => later.Completes known enclosing (some mark.id) completion := by
  cases elseBody with
  | none =>
    obtain ⟨walked, rule, ownedThen, returns⟩ := owned_ifThen owned
    have both := fun returned =>
      Rule.branchesReturn_of_holds (accepted.holds _ returns _ List.mem_cons_self) returned
    refine safe_bind (safe_test accepted home ⟨_, walked⟩ rule) fun later holds grown _ => ?_
    cases holds with
    | true =>
      refine safe_run (.body (World.scope?_mono grown home) inside ownedThen) ?_
      intro last completion _ completes
      refine completes.imp fun id same returned => ?_
      cases same
      exact ⟨_, rfl, (both returned).1⟩
    | false =>
      refine safe_pure fun id same returned => ?_
      cases same
      obtain ⟨_, node, absent, _⟩ := both returned
      cases absent
  | some elseBody =>
    obtain ⟨walked, rule, ownedThen, ⟨second, insideSecond, ownedElse⟩, returns⟩ :=
      owned_ifElse positive inside owned
    have both := fun returned =>
      Rule.branchesReturn_of_holds (accepted.holds _ returns _ List.mem_cons_self) returned
    refine safe_bind (safe_test accepted home ⟨_, walked⟩ rule) fun later holds grown _ => ?_
    have homeLater := World.scope?_mono grown home
    cases holds with
    | true =>
      refine safe_run (.body homeLater inside ownedThen) ?_
      intro last completion _ completes
      refine completes.imp fun id same returned => ?_
      cases same
      exact ⟨_, rfl, (both returned).1⟩
    | false =>
      refine safe_run (.body homeLater insideSecond ownedElse) ?_
      intro last completion _ completes
      refine completes.imp fun id same returned => ?_
      cases same
      exact ⟨_, (both returned).2.choose_spec⟩

/-! ## Returns -/

theorem safe_return {mark : Mark} {value : Option Expr}
    (steps : Walk.stmt scope next enclosing (.return mark value) ⊆ known.steps) :
    (stmt known.notes frame (.return mark value)).Safe known excuse w fun later completion =>
      later.Completes known enclosing (some mark.id) completion := by
  have rule : ∀ decl, enclosing = some decl → .rule (.returned mark value decl) ∈ known.steps := by
    rintro decl rfl
    exact steps (by simp [Walk.stmt])
  cases value with
  | none =>
    refine safe_pure fun decl same => ?_
    obtain ⟨expected, resultTyped, void⟩ :=
      Rule.returned_holds_iff.mp (accepted.holds _ (rule decl same) _ List.mem_cons_self)
    cases Ty.eq_void_of_same void
    exact ⟨_, resultTyped, .void⟩
  | some e =>
    have walked : known.Walked scope e :=
      ⟨_, fun _ member => steps (List.mem_append_left _ member)⟩
    refine safe_bind (safe_run (.expr home walked) fun _ _ _ => id) ?_
    intro later value grown yields
    refine safe_pure fun decl same => ?_
    obtain ⟨expected, resultTyped, actual, valueTyped, fits⟩ :=
      Rule.returned_holds_iff.mp (accepted.holds _ (rule decl same) _ List.mem_cons_self)
    obtain ⟨ty, typed, shape⟩ := yields
    rw [valueTyped] at typed
    cases typed
    exact ⟨_, resultTyped, shape.coerce fits⟩

/-! ## Statements -/

omit home in
/-- A statement that does nothing by itself. -/
theorem safe_quiet {mark : Mark} (returns : .returns mark false ∈ known.steps) :
    (pure .normal : Plan Completion).Safe known excuse w fun later completion =>
      later.Completes known enclosing (some mark.id) completion := by
  refine safe_pure fun id same => ?_
  cases same
  simp [accepted.returns returns]

theorem safe_stmt {s : Stmt} (positive : 0 < scope) (inside : scope < next)
    (owned : Owned known.steps next (Walk.stmt scope next enclosing s)) :
    (stmt known.notes frame s).Safe known excuse w fun later completion =>
      later.Completes known enclosing (some s.id) completion := by
  cases s with
  | block b =>
    obtain ⟨mark, statements⟩ := b
    obtain ⟨walked, returns⟩ := body_of_block inside owned
    exact safe_run (.block home walked returns) fun _ _ _ => id
  | expression mark e =>
    have walked : known.Walked scope e :=
      ⟨_, fun _ member => owned.subset (List.mem_append_left _ member)⟩
    have returns : .returns mark false ∈ known.steps := owned.subset (by simp [Walk.stmt])
    refine safe_bind (safe_run (.expr home walked) fun _ _ _ => id) ?_
    exact fun _ _ _ _ => safe_quiet accepted returns
  | var decl => exact safe_varDecl accepted home (variableWalked_of_subset owned.subset)
  | function decl =>
    have returns : .returns decl.mark false ∈ known.steps := owned.subset (by simp [Walk.stmt])
    exact safe_quiet accepted returns
  | struct decl =>
    have returns : .returns decl.mark false ∈ known.steps :=
      owned.subset (by simp [Walk.stmt, Walk.struct])
    exact safe_quiet accepted returns
  | box decl =>
    obtain ⟨mark, name, members⟩ := decl
    have returns : .returns mark false ∈ known.steps :=
      owned.subset (by simp [Walk.stmt, Walk.box])
    exact safe_quiet accepted returns
  | ifElse mark test thenBody elseBody => exact safe_ifElse accepted home positive inside owned
  | «while» mark test inner => exact safe_while accepted home inside owned
  | «return» mark value => exact safe_return accepted home owned.subset

end Statements

end Clause

/-! ## Tasks -/

/-- The plan of a task that may be asked for is safe. -/
theorem safe_clause {known : Analysis} {w : World} {task : Task}
    {promise : World → task.Result → Prop} (accepted : known.Accepted)
    (admits : Admits known w task promise) :
    (clause known.notes task).Safe known (Excused known.notes task) w promise := by
  cases admits with
  | expr home walked => exact Clause.safe_expr accepted home walked
  | exprs home walked => exact Clause.safe_exprs home walked
  | condition home walked typed => exact Clause.safe_condition home walked typed
  | assign home target walked assignable targetTyped valueTyped fits typed =>
    exact Clause.safe_assign accepted home walked valueTyped fits typed target assignable
      targetTyped
  | call shape suit => exact Clause.safe_call shape suit
  | invoke callable suit => exact (Clause.opens_invoke accepted callable suit).safe
  | block home body returns => exact (Clause.opens_block accepted home body returns).safe
  | sequence home positive inside owned => exact Clause.safe_sequence home positive inside owned
  | stmt home positive inside owned => exact Clause.safe_stmt accepted home positive inside owned
  | loop home walked typed inside owned => exact Clause.safe_loop home walked typed inside owned
  | body home inside owned => exact Clause.safe_body accepted home inside owned

end BoxScript
