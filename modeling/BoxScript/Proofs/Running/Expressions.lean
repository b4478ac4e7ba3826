import BoxScript.Proofs.Running.Entering
import BoxScript.Proofs.Running.Parts

/-!
# Expressions are evaluated safely

For each form of expression, and for the tasks that expressions come down to, the plan of the task
is safe: it asks only for what may be asked for, and gives a value of the type that was found. The
faults that are left are those of `Excused`.
-/

set_option autoImplicit false

namespace BoxScript

open Walk Step

/-! ## The parts of an expression -/

namespace Walk

theorem expr_subset_exprs {scope : ScopeId} {expectation : Expectation} {e : Expr} {es : List Expr}
    (member : e ∈ es) : expr scope expectation e ⊆ exprs scope expectation es := by
  induction es with
  | nil => cases member
  | cons first rest ih =>
    rcases List.mem_cons.mp member with rfl | later
    · exact List.subset_append_left _ _
    · exact List.Subset.trans (ih later) (List.subset_append_right _ _)

theorem expr_subset_arguments {scope : ScopeId} {callee : NodeId} (index : Nat) {e : Expr}
    {es : List Expr} (member : e ∈ es) :
    ∃ expectation, expr scope expectation e ⊆ arguments scope callee index es := by
  induction es generalizing index with
  | nil => cases member
  | cons first rest ih =>
    rcases List.mem_cons.mp member with rfl | later
    · exact ⟨_, List.subset_append_left _ _⟩
    · obtain ⟨expectation, subset⟩ := ih (index + 1) later
      exact ⟨expectation, List.Subset.trans subset (List.subset_append_right _ _)⟩

end Walk

/-- The parts of a walked expression are walked in the same scope. -/
theorem Analysis.Walked.part {known : Analysis} {scope : ScopeId} {e part : Expr}
    (walked : known.Walked scope e) (member : part ∈ e.parts) : known.Walked scope part := by
  obtain ⟨expectation, subset⟩ := walked
  cases e with
  | array mark elements =>
    exact ⟨_, List.Subset.trans (expr_subset_exprs member) (List.append_subset.mp subset).1⟩
  | paren mark inner | unary mark op inner | field mark inner name | member mark inner name =>
    rw [List.mem_singleton.mp member]
    exact ⟨_, (List.append_subset.mp subset).1⟩
  | binary mark op left right | assign mark left right | index mark left right =>
    obtain ⟨first, second⟩ := List.append_subset.mp (List.append_subset.mp subset).1
    rcases List.mem_cons.mp member with rfl | member
    · exact ⟨_, first⟩
    · rw [List.mem_singleton.mp member]
      exact ⟨_, second⟩
  | call mark callee given =>
    obtain ⟨first, second⟩ := List.append_subset.mp (List.append_subset.mp subset).1
    rcases List.mem_cons.mp member with rfl | member
    · exact ⟨_, first⟩
    · obtain ⟨found, inner⟩ := expr_subset_arguments 0 member
      exact ⟨found, List.Subset.trans inner second⟩
  | _ => cases member

/-! ## The faults that are left -/

/-- The faults that a task may raise: a bare name that means a method may find no method of that
name, and the output may be refused. -/
def Excused (notes : Annotations) : Task → Halt → Prop
  | .expr _ (.symbol mark name), halt => Eval.isMethod notes mark.id = true ∧
      halt = .failed ⟨.fault (.noMethod name), mark.span⟩
  | .call (.builtin _) _ span, halt =>
    halt = .failed ⟨.fault (.outputRefused Sink.refusal), span⟩
  | _, _ => False

namespace Clause

open Plan

variable {known : Analysis} {w : World} {frame : FrameId} {scope : ScopeId} {excuse : Halt → Prop}

/-! ## Single expressions -/

/-- A part of an expression is asked for, and gives a value of its type. -/
theorem safe_part {e part : Expr} {ty : Ty} {post : World → Value → Prop}
    (home : w.scope? frame = some scope) (walked : known.Walked scope e) (member : part ∈ e.parts)
    (typed : known.notes.typeOf? part.id = some ty)
    (holds : ∀ later value, w ≤ later → later.HasShape known ty value → post later value) :
    (run (.expr frame part)).Safe known excuse w post := by
  refine safe_run (.expr home (walked.part member)) fun later value grown yields => ?_
  obtain ⟨found, foundTyped, shape⟩ := yields
  rw [typed] at foundTyped
  cases foundTyped
  exact holds later value grown shape

/-- The same, where the value is all that matters afterwards. -/
theorem safe_value {e part : Expr} {ty : Ty} (home : w.scope? frame = some scope)
    (walked : known.Walked scope e) (member : part ∈ e.parts)
    (typed : known.notes.typeOf? part.id = some ty) :
    (run (.expr frame part)).Safe known excuse w fun later value => later.HasShape known ty value :=
  safe_part home walked member typed fun _ _ _ => id

/-- The values of arguments may be given for the parameters. -/
theorem suit_of_yield {params : List Ty} {given : List Expr} {values : List Value}
    (fit : List.Forall₂ (fun param argument => ∃ ty,
      known.notes.typeOf? argument.id = some ty ∧ ty.isAssignableTo param = true) params given)
    (yield : List.Forall₂ (w.Yields known) given values) :
    List.Forall₂ (w.Suits known) params values := by
  induction fit generalizing values with
  | nil =>
    cases yield
    exact .nil
  | cons first _ ih =>
    cases yield with
    | cons value others =>
      obtain ⟨ty, typed, fits⟩ := first
      obtain ⟨found, foundTyped, shape⟩ := value
      rw [typed] at foundTyped
      cases foundTyped
      exact .cons ⟨ty, shape, fits⟩ (ih others)

/-- Parentheses do not change the type or the scope of what is between them. -/
theorem bare_of_walked (accepted : known.Accepted) {e : Expr} (walked : known.Walked scope e) :
    known.Walked scope e.bare ∧ known.notes.typeOf? e.bare.id = known.notes.typeOf? e.id := by
  induction e using Expr.bare.induct with
  | case1 mark inner ih =>
    obtain ⟨expectation, step⟩ := walked.step
    obtain ⟨ty, innerTyped, typed⟩ := Rule.paren_holds_iff.mp (accepted.rule step rfl)
    obtain ⟨bare, same⟩ := ih (walked.part List.mem_cons_self)
    refine ⟨bare, same.trans ?_⟩
    exact innerTyped.trans typed.symm
  | case2 e noParen =>
    have plain : e.bare = e := by
      cases e with
      | paren mark inner => exact absurd rfl (noParen mark inner)
      | _ => rfl
    rw [plain]
    exact ⟨walked, rfl⟩

section Forms

variable (accepted : known.Accepted) (home : w.scope? frame = some scope) {mark : Mark}

include accepted home

theorem safe_array {elements : List Expr} (walked : known.Walked scope (.array mark elements)) :
    (expr known.notes frame (.array mark elements)).Safe known excuse w fun later value =>
      later.Yields known (.array mark elements) value := by
  obtain ⟨expectation, step⟩ := walked.step
  obtain ⟨component, typed, fit⟩ := Rule.array_of_holds (accepted.rule step rfl)
  refine safe_bind (safe_run (.exprs home fun e member => walked.part member)
    fun _ _ _ => id) fun later values grown yield => ?_
  simp only [typed, Option.bind_some, Ty.component?]
  have holds : later.Holds known (.elements component)
      (values.map (·.coerce (some component))).toArray := by
    intro value member
    rw [List.mem_toArray] at member
    obtain ⟨plain, plainMember, rfl⟩ := List.mem_map.mp member
    obtain ⟨e, elementMember, ty, elementTyped, shape⟩ := exists_of_forall₂_right yield plainMember
    obtain ⟨found, foundTyped, fits⟩ := fit e.id (List.mem_map.mpr ⟨e, elementMember, rfl⟩)
    rw [elementTyped] at foundTyped
    cases foundTyped
    exact shape.coerce fits
  have row : Eval.Safe known excuse later
      (Eval.change (·.newRow (values.map (·.coerce (some component))).toArray)) fun last row =>
      last.rows[row]? = some (.elements component) := by
    refine Eval.safe_change fun heap types => ?_
    obtain ⟨typesLater, shaped⟩ := types.newRow holds
    exact ⟨_, World.le_withRow later _, typesLater, shaped⟩
  refine safe_bind (safe_step row) fun last row further shaped => ?_
  exact safe_pure ⟨_, typed, .array shaped (Ty.same_refl component)⟩

theorem safe_paren {inner : Expr} (walked : known.Walked scope (.paren mark inner)) :
    (expr known.notes frame (.paren mark inner)).Safe known excuse w fun later value =>
      later.Yields known (.paren mark inner) value := by
  obtain ⟨expectation, step⟩ := walked.step
  obtain ⟨ty, innerTyped, typed⟩ := Rule.paren_holds_iff.mp (accepted.rule step rfl)
  exact safe_part home walked List.mem_cons_self innerTyped fun later value grown shape =>
    ⟨ty, typed, shape⟩

theorem safe_unary {op : PrefixOp} {operand : Expr}
    (walked : known.Walked scope (.unary mark op operand)) :
    (expr known.notes frame (.unary mark op operand)).Safe known excuse w fun later value =>
      later.Yields known (.unary mark op operand) value := by
  obtain ⟨expectation, step⟩ := walked.step
  obtain ⟨ty, operandTyped, fits⟩ := Rule.unary_holds_iff.mp (accepted.rule step rfl)
  refine safe_bind (safe_value home walked List.mem_cons_self operandTyped) ?_
  intro later value grown shape
  refine safe_step ?_
  cases op with
  | not =>
    obtain ⟨isBool, typed⟩ := fits
    obtain ⟨result, same, resultShape⟩ := (shape.of_same isBool).not
    rw [same]
    exact Eval.safe_pure ⟨_, typed, resultShape⟩
  | negate =>
    obtain ⟨numeric, typed⟩ := fits
    obtain ⟨result, same, resultShape⟩ := shape.negate numeric
    rw [same]
    exact Eval.safe_pure ⟨_, typed, resultShape⟩

theorem safe_binary {op : BinaryOp} {left right : Expr}
    (walked : known.Walked scope (.binary mark op left right)) :
    (expr known.notes frame (.binary mark op left right)).Safe known excuse w fun later value =>
      later.Yields known (.binary mark op left right) value := by
  obtain ⟨expectation, step⟩ := walked.step
  obtain ⟨leftType, rightType, ty, leftTyped, rightTyped, fits, typed⟩ :=
    Rule.binary_holds_iff.mp (accepted.rule step rfl)
  have isLeft : left ∈ (Expr.binary mark op left right).parts := List.mem_cons_self
  have isRight : right ∈ (Expr.binary mark op left right).parts :=
    List.mem_cons_of_mem _ List.mem_cons_self
  by_cases logical : op.opClass = .logical
  · obtain ⟨rfl, rfl, rfl⟩ := Rule.bool_of_logical fits logical
    have condition : ∀ {later : World} {operand : Expr}, w ≤ later →
        operand ∈ (Expr.binary mark op left right).parts →
        known.notes.typeOf? operand.id = some .bool →
        (run (.condition frame operand)).Safe known excuse later fun _ _ => True :=
      fun grown member typed => safe_run
        (.condition (World.scope?_mono grown home) (walked.part member) typed) fun _ _ _ => id
    have bool : ∀ {later : World} {value : Bool},
        (pure (.bool value) : Plan Value).Safe known excuse later fun last value =>
          last.Yields known (.binary mark op left right) value :=
      safe_pure ⟨_, typed, .bool⟩
    cases op <;> cases logical
    all_goals
      refine safe_bind (condition (le_refl w) isLeft leftTyped) fun later first grown _ => ?_
      cases first
    · exact bool
    · exact safe_bind (condition grown isRight rightTyped) fun _ _ _ _ => bool
    · exact safe_bind (condition grown isRight rightTyped) fun _ _ _ _ => bool
    · exact bool
  · have plan : expr known.notes frame (.binary mark op left right) = (do
        let a ← run (.expr frame left)
        let b ← run (.expr frame right)
        Eval.binary known.notes mark op a b) := by
      cases op <;> first | rfl | exact absurd rfl logical
    rw [plan]
    refine safe_bind (safe_value home walked isLeft leftTyped) fun later a grown leftShape => ?_
    refine safe_bind (safe_value (World.scope?_mono grown home) walked isRight rightTyped) ?_
    intro last b further rightShape
    refine safe_step ?_
    exact (Eval.safe_binary (leftShape.mono further) rightShape fits typed logical).mono
      fun _ _ _ shape => ⟨ty, typed, shape⟩

theorem safe_callExpr {callee : Expr} {given : List Expr}
    (walked : known.Walked scope (.call mark callee given)) :
    (expr known.notes frame (.call mark callee given)).Safe known excuse w fun later value =>
      later.Yields known (.call mark callee given) value := by
  obtain ⟨expectation, step⟩ := walked.step
  obtain ⟨params, result, calleeTyped, fit, typed⟩ :=
    Rule.call_holds_iff.mp (accepted.rule step rfl)
  refine safe_bind (safe_value home walked List.mem_cons_self calleeTyped) ?_
  intro later function grown shape
  refine safe_bind (safe_run (.exprs (World.scope?_mono grown home)
    fun e member => walked.part (List.mem_cons_of_mem _ member)) fun _ _ _ => id) ?_
  intro last values further yield
  exact safe_run (.call (shape.mono further) (suit_of_yield fit yield))
    fun final value _ resultShape => ⟨result, typed, resultShape⟩

theorem safe_index {owner place : Expr} (walked : known.Walked scope (.index mark owner place)) :
    (expr known.notes frame (.index mark owner place)).Safe known excuse w fun later value =>
      later.Yields known (.index mark owner place) value := by
  obtain ⟨expectation, step⟩ := walked.step
  obtain ⟨component, placeType, ownerTyped, placeTyped, isInt, typed⟩ :=
    Rule.index_holds_iff.mp (accepted.rule step rfl)
  cases Ty.eq_int_of_same isInt
  refine safe_bind (safe_value home walked List.mem_cons_self ownerTyped) ?_
  intro later a grown ownerShape
  refine safe_bind (safe_value (World.scope?_mono grown home) walked
    (List.mem_cons_of_mem _ List.mem_cons_self) placeTyped) ?_
  intro last i further placeShape
  refine safe_step ?_
  exact (Eval.safe_readElement (ownerShape.mono further) placeShape).mono
    fun _ _ _ shape => ⟨component, typed, shape⟩

theorem safe_field {receiver : Expr} {name : String}
    (walked : known.Walked scope (.field mark receiver name)) :
    (expr known.notes frame (.field mark receiver name)).Safe known excuse w fun later value =>
      later.Yields known (.field mark receiver name) value := by
  obtain ⟨expectation, step⟩ := walked.step
  rcases Rule.field_of_holds (accepted.rule step rfl) with
    ⟨named, id, decl, ty, receiverTyped, found, present, _, declared, typed⟩ |
    ⟨component, receiverTyped, rfl, typed⟩
  · refine safe_bind (safe_value home walked List.mem_cons_self receiverTyped) ?_
    intro later value grown shape
    refine safe_step ?_
    exact (Eval.safe_readField accepted shape found present declared).mono
      fun _ _ _ shape => ⟨ty, typed, shape⟩
  · refine safe_bind (safe_value home walked List.mem_cons_self receiverTyped) ?_
    intro later value grown shape
    refine safe_step ?_
    exact (Eval.safe_readLength shape).mono fun _ _ _ shape => ⟨_, typed, shape⟩

theorem safe_member {receiver : Expr} {name : String}
    (walked : known.Walked scope (.member mark receiver name)) :
    (expr known.notes frame (.member mark receiver name)).Safe known excuse w fun later value =>
      later.Yields known (.member mark receiver name) value := by
  obtain ⟨expectation, step⟩ := walked.step
  obtain ⟨named, id, decl, ty, receiverTyped, found, present, means, declared, typed⟩ :=
    Rule.member_of_holds (accepted.rule step rfl)
  refine safe_bind (safe_value home walked List.mem_cons_self receiverTyped) ?_
  intro later value grown shape
  refine safe_step ?_
  exact (Eval.safe_readMember accepted shape found present means declared).mono
    fun _ _ _ shape => ⟨ty, typed, shape⟩

theorem safe_assignExpr {target value : Expr}
    (walked : known.Walked scope (.assign mark target value)) :
    (expr known.notes frame (.assign mark target value)).Safe known excuse w fun later result =>
      later.Yields known (.assign mark target value) result := by
  obtain ⟨expectation, step⟩ := walked.step
  obtain ⟨assignable, ty, valueType, targetTyped, valueTyped, fits, typed⟩ :=
    Rule.assign_holds_iff.mp (accepted.rule step rfl)
  obtain ⟨bare, same⟩ := bare_of_walked accepted (walked.part List.mem_cons_self)
  have valueWalked := walked.part (List.mem_cons_of_mem target List.mem_cons_self)
  exact safe_run (.assign home bare valueWalked assignable (same.trans targetTyped) valueTyped fits
    typed) fun later result _ shape => ⟨ty, typed, shape⟩

/-- An expression is evaluated safely, and has a value of its type. -/
theorem safe_expr {e : Expr} (walked : known.Walked scope e) :
    (expr known.notes frame e).Safe known (Excused known.notes (.expr frame e)) w
      fun later value => later.Yields known e value := by
  have step := walked.step
  cases e with
  | int mark value =>
    obtain ⟨expectation, step⟩ := step
    exact safe_pure ⟨_, accepted.literal step rfl, .int⟩
  | float mark value =>
    obtain ⟨expectation, step⟩ := step
    exact safe_pure ⟨_, accepted.literal step rfl, .float⟩
  | string mark value =>
    obtain ⟨expectation, step⟩ := step
    exact safe_pure ⟨_, accepted.literal step rfl, .string⟩
  | bool mark value =>
    obtain ⟨expectation, step⟩ := step
    exact safe_pure ⟨_, accepted.literal step rfl, .bool⟩
  | null mark =>
    obtain ⟨expectation, step⟩ := step
    exact safe_pure ⟨_, accepted.literal step rfl, .null (.inl rfl)⟩
  | symbol mark name =>
    exact safe_step (Eval.safe_symbol accepted home walked fun method => ⟨method, rfl⟩)
  | array mark elements => exact safe_array accepted home walked
  | paren mark inner => exact safe_paren accepted home walked
  | unary mark op operand => exact safe_unary accepted home walked
  | binary mark op left right => exact safe_binary accepted home walked
  | assign mark target value => exact safe_assignExpr accepted home walked
  | call mark callee given => exact safe_callExpr accepted home walked
  | index mark owner place => exact safe_index accepted home walked
  | field mark receiver name => exact safe_field accepted home walked
  | member mark receiver name => exact safe_member accepted home walked
  | constructor mark name => exact safe_step (Eval.safe_constructor accepted home walked)
  | create mark name => exact safe_step (Eval.safe_create accepted home walked)

end Forms

/-! ## The tasks of expressions -/

theorem safe_exprs {es : List Expr} (home : w.scope? frame = some scope)
    (walked : ∀ e ∈ es, known.Walked scope e) :
    (exprs frame es).Safe known excuse w fun later values =>
      List.Forall₂ (later.Yields known) es values := by
  cases es with
  | nil => exact safe_pure .nil
  | cons e rest =>
    refine safe_bind (safe_run (.expr home (walked e List.mem_cons_self)) fun _ _ _ => id) ?_
    intro later value grown yields
    refine safe_bind (safe_run (.exprs (World.scope?_mono grown home)
      fun other member => walked other (List.mem_cons_of_mem _ member)) fun _ _ _ => id) ?_
    intro last values further others
    obtain ⟨ty, typed, shape⟩ := yields
    exact safe_pure (.cons ⟨ty, typed, shape.mono further⟩ others)

theorem safe_condition {e : Expr} (home : w.scope? frame = some scope)
    (walked : known.Walked scope e) (typed : known.notes.typeOf? e.id = some .bool) :
    (condition frame e).Safe known excuse w fun _ _ => True := by
  have bool : (run (.expr frame e)).Safe known excuse w fun later value =>
      later.HasShape known .bool value := by
    refine safe_run (.expr home walked) fun later value grown yields => ?_
    obtain ⟨ty, found, shape⟩ := yields
    rw [typed] at found
    cases found
    exact shape
  exact safe_bind bool fun later value grown shape => safe_step (Eval.safe_expectBool shape)

/-! ## Assignments -/

section Assignments

variable {mark : Mark} {e : Expr} {ty valueType : Ty}

/-- The value that is assigned, as it is stored. -/
theorem safe_stored (home : w.scope? frame = some scope) (walked : known.Walked scope e)
    (valueTyped : known.notes.typeOf? e.id = some valueType)
    (fits : valueType.isAssignableTo ty = true) :
    (run (.expr frame e)).Safe known excuse w fun later value =>
      later.HasShape known ty (value.coerce (some ty)) := by
  refine safe_run (.expr home walked) fun later value grown yields => ?_
  obtain ⟨found, foundTyped, shape⟩ := yields
  rw [valueTyped] at foundTyped
  cases foundTyped
  exact shape.coerce fits

variable (accepted : known.Accepted) (home : w.scope? frame = some scope)
  (walked : known.Walked scope e) (valueTyped : known.notes.typeOf? e.id = some valueType)
  (fits : valueType.isAssignableTo ty = true) (typed : known.notes.typeOf? mark.id = some ty)

include accepted home walked valueTyped fits typed

/-- An assignment to a name. -/
theorem safe_assignSymbol {place : Mark} {name : String}
    (targetWalked : known.Walked scope (.symbol place name))
    (assignable : Rule.Assignable known.notes (.symbol place name))
    (targetTyped : known.notes.typeOf? place.id = some ty) :
    (assign known.notes frame mark (.symbol place name) e).Safe known excuse w
      fun later value => later.HasShape known ty value := by
  unfold assign
  rw [typed]
  obtain ⟨decl, found, resolves, declared, declType, noted⟩ := accepted.symbol targetWalked
  rw [targetTyped] at noted
  cases noted
  obtain ⟨same, sameDeclared, kind⟩ := assignable
  rw [declared] at sameDeclared
  cases sameDeclared
  have isValue : decl.kind ≠ .method := by rcases kind with kind | kind | kind <;> simp [kind]
  have fitting : ∀ {later : World} {value : Value}, later.HasShape known ty value →
      later.Fits known decl value := by
    intro later value shape
    rcases kind with kind | kind | kind <;>
      simp only [Declaration.type?, kind, DeclKind.isType] at declType <;>
      simp only [World.Fits, kind] <;>
      exact ⟨ty, declType, shape⟩
  have node : Eval.Safe known excuse w (Eval.declNode known.notes place.id name place.span)
      fun _ node => node = decl.node := Eval.safe_declNode declared rfl
  refine safe_bind (safe_step node) fun later node grown is => ?_
  subst is
  refine safe_bind (safe_stored (World.scope?_mono grown home) walked valueTyped fits) ?_
  intro last value further shape
  have assigned : Eval.Safe known excuse last
      (Eval.change (·.assign frame name decl.node (value.coerce (some ty)))) fun _ result =>
      result = .ok () ∨ result = .error .uninitialised := by
    refine Eval.safe_change fun heap types => ?_
    obtain ⟨typesLater, outcome⟩ := types.assign accepted
      (World.scope?_mono (le_trans grown further) home) resolves isValue (fitting shape)
    exact ⟨last, le_refl last, typesLater, outcome⟩
  refine safe_bind (safe_step assigned) fun final result evenFurther outcome => ?_
  rcases outcome with rfl | rfl
  · exact safe_pure (shape.mono evenFurther)
  · exact safe_step Eval.safe_uninitialised

/-- An assignment to an element of an array. -/
theorem safe_assignIndex {place : Mark} {array index : Expr}
    (targetWalked : known.Walked scope (.index place array index))
    (targetTyped : known.notes.typeOf? place.id = some ty) :
    (assign known.notes frame mark (.index place array index) e).Safe known excuse w
      fun later value => later.HasShape known ty value := by
  unfold assign
  rw [typed]
  obtain ⟨expectation, step⟩ := targetWalked.step
  obtain ⟨component, placeType, arrayTyped, indexTyped, isInt, noted⟩ :=
    Rule.index_holds_iff.mp (accepted.rule step rfl)
  rw [targetTyped] at noted
  cases noted
  cases Ty.eq_int_of_same isInt
  refine safe_bind (safe_value home targetWalked List.mem_cons_self arrayTyped) ?_
  intro later a grown arrayShape
  refine safe_bind (safe_value (World.scope?_mono grown home) targetWalked
    (List.mem_cons_of_mem _ List.mem_cons_self) indexTyped) ?_
  intro last i further indexShape
  refine safe_bind (safe_stored (World.scope?_mono (le_trans grown further) home) walked
    valueTyped fits) fun final value evenFurther shape => ?_
  refine safe_bind (safe_step (Eval.safe_assignElement
    (arrayShape.mono (le_trans further evenFurther)) (indexShape.mono evenFurther) shape)) ?_
  exact fun _ _ beyond _ => safe_pure (shape.mono beyond)

/-- An assignment to a field of a struct. -/
theorem safe_assignField {place : Mark} {receiver : Expr} {name : String}
    (targetWalked : known.Walked scope (.field place receiver name))
    (assignable : Rule.Assignable known.notes (.field place receiver name))
    (targetTyped : known.notes.typeOf? place.id = some ty) :
    (assign known.notes frame mark (.field place receiver name) e).Safe known excuse w
      fun later value => later.HasShape known ty value := by
  unfold assign
  rw [typed]
  obtain ⟨expectation, step⟩ := targetWalked.step
  obtain ⟨receiverType, receiverTyped, noArray⟩ := assignable
  rcases Rule.field_of_holds (accepted.rule step rfl) with
    ⟨named, id, decl, found, sameTyped, looked, present, _, declared, noted⟩ |
    ⟨component, sameTyped, _, _⟩
  · rw [targetTyped] at noted
    cases noted
    refine safe_bind (safe_value home targetWalked List.mem_cons_self sameTyped) ?_
    intro later owner grown ownerShape
    refine safe_bind (safe_stored (World.scope?_mono grown home) walked valueTyped fits) ?_
    intro last value further shape
    refine safe_bind (safe_step (Eval.safe_assignField accepted (ownerShape.mono further) looked
      present declared shape)) ?_
    exact fun _ _ beyond _ => safe_pure (shape.mono beyond)
  · rw [receiverTyped] at sameTyped
    cases sameTyped
    cases noArray

/-- An assignment to an attribute of an instance. -/
theorem safe_assignMember {place : Mark} {receiver : Expr} {name : String}
    (targetWalked : known.Walked scope (.member place receiver name))
    (assignable : Rule.Assignable known.notes (.member place receiver name))
    (targetTyped : known.notes.typeOf? place.id = some ty) :
    (assign known.notes frame mark (.member place receiver name) e).Safe known excuse w
      fun later value => later.HasShape known ty value := by
  unfold assign
  rw [typed]
  obtain ⟨expectation, step⟩ := targetWalked.step
  obtain ⟨same, sameDeclared, kind⟩ := assignable
  obtain ⟨named, id, decl, found, receiverTyped, looked, present, means, declared, noted⟩ :=
    Rule.member_of_holds (accepted.rule step rfl)
  rw [means] at sameDeclared
  cases sameDeclared
  rw [targetTyped] at noted
  cases noted
  refine safe_bind (safe_value home targetWalked List.mem_cons_self receiverTyped) ?_
  intro later owner grown ownerShape
  refine safe_bind (safe_stored (World.scope?_mono grown home) walked valueTyped fits) ?_
  intro last value further shape
  refine safe_bind (safe_step (Eval.safe_assignMember accepted (ownerShape.mono further) looked
    present kind declared shape)) ?_
  exact fun _ _ beyond _ => safe_pure (shape.mono beyond)

/-- An assignment stores a value of the type of its target. -/
theorem safe_assign {target : Expr} (targetWalked : known.Walked scope target)
    (assignable : Rule.Assignable known.notes target)
    (targetTyped : known.notes.typeOf? target.id = some ty) :
    (assign known.notes frame mark target e).Safe known excuse w fun later value =>
      later.HasShape known ty value := by
  cases target with
  | symbol place name =>
    exact safe_assignSymbol accepted home walked valueTyped fits typed targetWalked assignable
      targetTyped
  | index place array index =>
    exact safe_assignIndex accepted home walked valueTyped fits typed targetWalked targetTyped
  | field place receiver name =>
    exact safe_assignField accepted home walked valueTyped fits typed targetWalked assignable
      targetTyped
  | member place receiver name =>
    exact safe_assignMember accepted home walked valueTyped fits typed targetWalked assignable
      targetTyped
  | _ => exact assignable.elim

end Assignments

end Clause

end BoxScript
