import BoxScript.Proofs.Running.Safety
import BoxScript.Proofs.Rules.Characterization

/-!
# Operators on values of their types

Operators give a value of the type that was found for them, on operands of the types that they were
found to take. The one error is division by zero.
-/

set_option autoImplicit false

namespace BoxScript

namespace World

variable {known : Analysis} {w : World} {ty : Ty} {value : Value}

/-! ## Shapes of plain values -/

theorem HasShape.eq_bool (shape : w.HasShape known .bool value) : ∃ b, value = .bool b := by
  cases shape with
  | bool => exact ⟨_, rfl⟩
  | null nullable => simp [Ty.isReference] at nullable

theorem HasShape.eq_int (shape : w.HasShape known .int value) : ∃ n, value = .int n := by
  cases shape with
  | int => exact ⟨_, rfl⟩
  | null nullable => simp [Ty.isReference] at nullable

theorem HasShape.eq_float (shape : w.HasShape known .float value) : ∃ x, value = .float x := by
  cases shape with
  | float => exact ⟨_, rfl⟩
  | null nullable => simp [Ty.isReference] at nullable

/-- A number is an Int or a Float. -/
theorem HasShape.eq_number (shape : w.HasShape known ty value) (numeric : ty.isNumeric = true) :
    (ty = .int ∧ ∃ n, value = .int n) ∨ (ty = .float ∧ ∃ x, value = .float x) := by
  cases ty with
  | int => exact .inl ⟨rfl, shape.eq_int⟩
  | float => exact .inr ⟨rfl, shape.eq_float⟩
  | _ => cases numeric

/-! ## Prefix operators -/

theorem HasShape.not (shape : w.HasShape known .bool value) :
    ∃ result, value.unary .not = .ok result ∧ w.HasShape known .bool result := by
  obtain ⟨b, rfl⟩ := shape.eq_bool
  exact ⟨_, rfl, .bool⟩

theorem HasShape.negate (shape : w.HasShape known ty value) (numeric : ty.isNumeric = true) :
    ∃ result, value.unary .negate = .ok result ∧ w.HasShape known ty result := by
  rcases shape.eq_number numeric with ⟨rfl, n, rfl⟩ | ⟨rfl, x, rfl⟩
  · exact ⟨_, rfl, .int⟩
  · exact ⟨_, rfl, .float⟩

/-! ## Binary operators -/

/-- A value of a type, or an error that is no fault. -/
def Succeeds (known : Analysis) (w : World) (ty : Ty) : Except RuntimeError.Cause Value → Prop
  | .ok value => w.HasShape known ty value
  | .error cause => ∀ span, (Halt.failed ⟨cause, span⟩).isFault = false

/-- A quotient or remainder of Ints. -/
theorem succeeds_quotient {divisor quotient : Int64} :
    w.Succeeds known .int
      (if divisor = 0 then .error .divisionByZero else .ok (.int quotient)) := by
  split
  · exact fun span => rfl
  · exact .int

variable {left right : Value} {leftType rightType : Ty} {op : BinaryOp}

/-- An arithmetic operator on numbers. Its value is a Float if one of them is. -/
theorem succeeds_arithmetic (leftShape : w.HasShape known leftType left)
    (rightShape : w.HasShape known rightType right) (leftNumeric : leftType.isNumeric = true)
    (rightNumeric : rightType.isNumeric = true) (arithmetic : op.opClass = .arithmetic) :
    w.Succeeds known (if leftType.same .float || rightType.same .float then .float else .int)
      (left.binary op right) := by
  rcases leftShape.eq_number leftNumeric with ⟨rfl, n, rfl⟩ | ⟨rfl, x, rfl⟩ <;>
    rcases rightShape.eq_number rightNumeric with ⟨rfl, m, rfl⟩ | ⟨rfl, y, rfl⟩
  · cases op <;> cases arithmetic <;> first | exact .int | exact succeeds_quotient
  all_goals cases op <;> cases arithmetic <;> exact .float

/-- A relational operator on numbers. -/
theorem succeeds_relational (leftShape : w.HasShape known leftType left)
    (rightShape : w.HasShape known rightType right) (leftNumeric : leftType.isNumeric = true)
    (rightNumeric : rightType.isNumeric = true) (relational : op.opClass = .relational) :
    w.Succeeds known .bool (left.binary op right) := by
  rcases leftShape.eq_number leftNumeric with ⟨rfl, n, rfl⟩ | ⟨rfl, x, rfl⟩ <;>
    rcases rightShape.eq_number rightNumeric with ⟨rfl, m, rfl⟩ | ⟨rfl, y, rfl⟩
  all_goals cases op <;> cases relational <;> exact .bool

/-- An operator on operands that it was found to take. Concatenation and the logical operators,
which do not need the values of both operands, are apart. -/
theorem succeeds_binary (leftShape : w.HasShape known leftType left)
    (rightShape : w.HasShape known rightType right)
    (typed : Rule.binaryType op leftType rightType = .ok ty) (noText : ty ≠ .string)
    (noLogic : op.opClass ≠ .logical) : w.Succeeds known ty (left.binary op right) := by
  unfold Rule.binaryType at typed
  split at typed
  · rename_i arithmetic
    split at typed
    · cases typed
      exact absurd rfl noText
    · split at typed
      · rename_i numeric
        cases typed
        rw [Bool.and_eq_true] at numeric
        exact succeeds_arithmetic leftShape rightShape numeric.1 numeric.2 arithmetic
      · cases typed
  · rename_i relational
    split at typed
    · cases typed
    · rename_i none
      cases typed
      simp only [List.find?_eq_none, List.mem_cons, List.not_mem_nil, or_false, forall_eq_or_imp,
        forall_eq, Bool.not_eq_true, Bool.not_eq_false'] at none
      exact succeeds_relational leftShape rightShape none.1 none.2 relational
  · rename_i logical
    exact absurd logical noLogic
  · rename_i equality
    split at typed
    · cases typed
      cases op <;> cases equality <;> exact .bool
    · cases typed

end World

namespace Rule

/-- The operands of a logical operator are Bools, and so is its value. -/
theorem bool_of_logical {op : BinaryOp} {left right ty : Ty}
    (typed : Rule.binaryType op left right = .ok ty) (logical : op.opClass = .logical) :
    left = .bool ∧ right = .bool ∧ ty = .bool := by
  simp only [Rule.binaryType, logical] at typed
  split at typed
  · cases typed
  · rename_i none
    cases typed
    simp only [List.find?_eq_none, List.mem_cons, List.not_mem_nil, or_false, forall_eq_or_imp,
      forall_eq, Bool.not_eq_true, Bool.not_eq_false'] at none
    exact ⟨Ty.eq_bool_of_same none.1, Ty.eq_bool_of_same none.2, rfl⟩

end Rule

namespace Eval

variable {known : Analysis} {w : World} {excuse : Halt → Prop} {mark : Mark}

theorem safe_operator {ty : Ty} {result : Except RuntimeError.Cause Value}
    (succeeds : w.Succeeds known ty result) :
    Safe known excuse w (lift result mark.span)
      fun later value => later.HasShape known ty value := by
  refine safe_lift ?_
  cases result with
  | ok value => exact succeeds
  | error cause => exact succeeds mark.span

/-- Only a sum can be text. -/
theorem eq_add_of_text {op : BinaryOp} {leftType rightType : Ty}
    (typed : Rule.binaryType op leftType rightType = .ok .string) : op = .add := by
  unfold Rule.binaryType at typed
  split at typed
  · split at typed
    · rename_i text
      simp only [Bool.and_eq_true, decide_eq_true_eq] at text
      exact text.1.1.1
    · split at typed
      · simp only [Except.ok.injEq] at typed
        split at typed <;> cases typed
      · cases typed
  · split at typed <;> cases typed
  · split at typed <;> cases typed
  · split at typed <;> cases typed

/-- Where no text was found, operands are combined as values. -/
theorem binary_of_plain {notes : Annotations} {op : BinaryOp} {left right : Value} {ty : Ty}
    (noted : notes.typeOf? mark.id = some ty) (noText : ty ≠ .string) :
    binary notes mark op left right = lift (left.binary op right) mark.span := by
  unfold binary
  split
  · rename_i text
    rw [noted] at text
    cases text
    exact absurd rfl noText
  · rfl

/-- A binary operator on evaluated operands. Concatenation is told by the type that was found. -/
theorem safe_binary {op : BinaryOp} {left right : Value} {leftType rightType ty : Ty}
    (leftShape : w.HasShape known leftType left) (rightShape : w.HasShape known rightType right)
    (typed : Rule.binaryType op leftType rightType = .ok ty)
    (noted : known.notes.typeOf? mark.id = some ty) (noLogic : op.opClass ≠ .logical) :
    Safe known excuse w (binary known.notes mark op left right) fun later value =>
      later.HasShape known ty value := by
  by_cases text : ty = .string
  · subst text
    rw [eq_add_of_text typed]
    simp only [binary, noted]
    refine safe_bind (safe_textOf fun later text grown => trivial :
      Safe known excuse w _ fun _ _ => True) fun later leftText grown _ => ?_
    refine safe_bind (safe_textOf fun later text grown => trivial :
      Safe known excuse later _ fun _ _ => True) fun last rightText further _ => ?_
    exact safe_pure .string
  · rw [binary_of_plain noted text]
    exact safe_operator (World.succeeds_binary leftShape rightShape typed text noLogic)

end Eval

end BoxScript
