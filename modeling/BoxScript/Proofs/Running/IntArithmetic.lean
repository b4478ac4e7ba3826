import BoxScript.Proofs.Running.Assignments
import Mathlib.Data.Int.ModEq

/-!
# Operators on Ints

An Int is one of the `2 ^ 64` integers from `-2 ^ 63` on, and there is one of them in each class of
integers modulo `2 ^ 64` (`existsUnique_wraps`). What an operator gives on Ints is told in terms of
the integers that they are (`Value.OfInts`): a sum, difference, product or quotient is the Int in
the class of the exact one, where the exact quotient is cut toward zero; a remainder is closer to
zero than the divisor, on the side of the dividend, and differs from it by a multiple of the
divisor; a comparison compares the integers; and the one error is that of a divisor of zero. That
leaves one result at most (`Value.OfInts.unique`), at the edges of the range, too: the least Int
divided by -1 is itself.

Every operator that an accepted program applies to operands of type Int gives just that
(`Program.exact_on_ints`).
-/

set_option autoImplicit false

namespace BoxScript

/-! ## Integers modulo `2 ^ 64` -/

/-- Whether an Int stands for an integer modulo `2 ^ 64`. -/
def Wraps (exact : Int) (n : Int64) : Prop := n.toInt ≡ exact [ZMOD 2 ^ 64]

instance (exact : Int) (n : Int64) : Decidable (Wraps exact n) :=
  inferInstanceAs (Decidable (_ ≡ _ [ZMOD _]))

theorem wraps_iff_toInt_eq_bmod {exact : Int} {n : Int64} :
    Wraps exact n ↔ n.toInt = exact.bmod (2 ^ 64) := by
  constructor
  · intro same
    have inRange : n.toInt.bmod (2 ^ 64) = n.toInt := Int64.toInt_bmod n
    have residues : n.toInt % (2 ^ 64 : Nat) = exact % (2 ^ 64 : Nat) := same
    rw [← inRange, ← Int.emod_bmod n.toInt, residues, Int.emod_bmod]
  · intro same
    rw [Wraps, Int.ModEq, same]
    exact Int.bmod_emod

/-- There is one Int for each class of integers modulo `2 ^ 64`. -/
theorem existsUnique_wraps (exact : Int) : ∃! n, Wraps exact n := by
  simp only [wraps_iff_toInt_eq_bmod]
  refine ⟨Int64.ofInt exact, Int64.toInt_ofInt, fun n same => ?_⟩
  rw [← Int64.toInt_inj, same, Int64.toInt_ofInt]
  rfl

namespace BinaryOp

/-- The integer that an operator makes of two, if the operator gives that integer wherever it is in
range. -/
def operation? : BinaryOp → Option (Int → Int → Int)
  | .add => some (· + ·)
  | .subtract => some (· - ·)
  | .multiply => some (· * ·)
  | .divide => some Int.tdiv
  | .remainder | .equal | .notEqual | .less | .lessEqual | .greater | .greaterEqual | .and | .or =>
    none

/-- How an operator compares integers, if it does. -/
def relation? : BinaryOp → Option (Int → Int → Prop)
  | .less => some (· < ·)
  | .lessEqual => some (· ≤ ·)
  | .greater => some (· > ·)
  | .greaterEqual => some (· ≥ ·)
  | .equal => some (· = ·)
  | .notEqual => some (· ≠ ·)
  | .add | .subtract | .multiply | .divide | .remainder | .and | .or => none

theorem relation?_eq_none {op : BinaryOp} {exact : Int → Int → Int}
    (combines : op.operation? = some exact) : op.relation? = none := by
  cases op with
  | add | subtract | multiply | divide => rfl
  | _ => cases combines

end BinaryOp

namespace Value

variable {a b : Int64} {op : BinaryOp} {result : Except RuntimeError.Cause Value}

/-- What an operator gives on two Ints, in terms of the integers that they are. -/
inductive OfInts (a b : Int64) : BinaryOp → Except RuntimeError.Cause Value → Prop
  | number {op : BinaryOp} {exact : Int → Int → Int} {n : Int64}
      (combines : op.operation? = some exact) (divides : op = .divide → b ≠ 0)
      (wraps : Wraps (exact a.toInt b.toInt) n) : OfInts a b op (.ok (.int n))
  | remainder {n : Int64} (divides : b ≠ 0) (below : n.toInt.natAbs < b.toInt.natAbs)
      (sided : n.toInt = 0 ∨ n.toInt.sign = a.toInt.sign) (whole : b.toInt ∣ a.toInt - n.toInt) :
      OfInts a b .remainder (.ok (.int n))
  | byZero {op : BinaryOp} (divides : op = .divide ∨ op = .remainder) (zero : b = 0) :
      OfInts a b op (.error .divisionByZero)
  | comparison {op : BinaryOp} {relation : Int → Int → Prop} {holds : Bool}
      (compares : op.relation? = some relation) (tells : holds = true ↔ relation a.toInt b.toInt) :
      OfInts a b op (.ok (.bool holds))

/-! ## Remainders -/

theorem toInt_ne_zero (divides : b ≠ 0) : b.toInt ≠ 0 :=
  fun zero => divides (Int64.toInt_inj.mp zero)

theorem natAbs_toInt_mod_lt (divides : b ≠ 0) : (a % b).toInt.natAbs < b.toInt.natAbs := by
  rw [Int64.toInt_mod, Int.natAbs_tmod]
  exact Nat.mod_lt _ (Int.natAbs_pos.mpr (toInt_ne_zero divides))

theorem sign_toInt_mod (a b : Int64) :
    (a % b).toInt = 0 ∨ (a % b).toInt.sign = a.toInt.sign := by
  rw [Int64.toInt_mod, ← Int.sign_eq_zero_iff_zero, Int.sign_tmod]
  split
  · exact .inl rfl
  · exact .inr rfl

theorem dvd_sub_toInt_mod (a b : Int64) : b.toInt ∣ a.toInt - (a % b).toInt := by
  refine ⟨a.toInt.tdiv b.toInt, ?_⟩
  have parts := Int.mul_tdiv_add_tmod a.toInt b.toInt
  rw [Int64.toInt_mod]
  omega

/-- The quotient and the remainder make up the dividend. -/
theorem div_mul_add_mod (a b : Int64) : a / b * b + a % b = a := by
  have parts : a.toInt.tdiv b.toInt * b.toInt + a.toInt.tmod b.toInt = a.toInt :=
    Int.tdiv_mul_add_tmod a.toInt b.toInt
  have inRange : a.toInt.bmod (2 ^ 64) = a.toInt := Int64.toInt_bmod a
  rw [← Int64.toInt_inj, Int64.toInt_add, Int64.toInt_mul, Int64.toInt_div, Int64.toInt_mod,
    Int.bmod_mul_bmod, Int.bmod_add_bmod, parts, inRange]

/-- There is one remainder on each side of zero. -/
theorem eq_of_remainders {x r s m : Int} (rBelow : r.natAbs < m.natAbs)
    (sBelow : s.natAbs < m.natAbs) (rSided : r = 0 ∨ r.sign = x.sign)
    (sSided : s = 0 ∨ s.sign = x.sign) (rWhole : m ∣ x - r) (sWhole : m ∣ x - s) : r = s := by
  have apart : m ∣ r - s := by
    have both := Int.dvd_sub sWhole rWhole
    rwa [sub_sub_sub_cancel_left] at both
  have close : (r - s).natAbs < m.natAbs := by
    rcases lt_trichotomy x 0 with negative | rfl | positive
    · rw [Int.sign_eq_neg_one_of_neg negative, Int.sign_eq_neg_one_iff_neg] at rSided sSided
      omega
    · rw [Int.sign_zero, Int.sign_eq_zero_iff_zero] at rSided sSided
      omega
    · rw [Int.sign_eq_one_of_pos positive, Int.sign_eq_one_iff_pos] at rSided sSided
      omega
  exact sub_eq_zero.mp (Int.eq_zero_of_dvd_of_natAbs_lt_natAbs apart close)

/-! ## Operators -/

/-- What an operator gives is determined. -/
theorem OfInts.unique {other : Except RuntimeError.Cause Value} (ofInts : OfInts a b op result)
    (ofIntsToo : OfInts a b op other) : result = other := by
  cases ofInts with
  | number combines divides wraps =>
    cases ofIntsToo with
    | number combinesToo _ wrapsToo =>
      rw [combines] at combinesToo
      cases combinesToo
      rw [(existsUnique_wraps _).unique wraps wrapsToo]
    | remainder => cases combines
    | byZero divided zero =>
      rcases divided with rfl | rfl
      · exact absurd zero (divides rfl)
      · cases combines
    | comparison compares =>
      rw [BinaryOp.relation?_eq_none combines] at compares
      cases compares
  | remainder divides below sided whole =>
    cases ofIntsToo with
    | remainder _ belowToo sidedToo wholeToo =>
      have same := eq_of_remainders below belowToo sided sidedToo whole wholeToo
      rw [Int64.toInt_inj.mp same]
    | number combines => cases combines
    | byZero _ zero => exact absurd zero divides
    | comparison compares => cases compares
  | byZero divided zero =>
    cases ofIntsToo with
    | byZero => rfl
    | number combines divides =>
      rcases divided with rfl | rfl
      · exact absurd zero (divides rfl)
      · cases combines
    | remainder divides => exact absurd zero divides
    | comparison compares => rcases divided with rfl | rfl <;> cases compares
  | comparison compares tells =>
    cases ofIntsToo with
    | comparison comparesToo tellsToo =>
      rw [compares] at comparesToo
      cases comparesToo
      rw [Bool.eq_iff_iff.mpr (tells.trans tellsToo.symm)]
    | number combines =>
      rw [BinaryOp.relation?_eq_none combines] at compares
      cases compares
    | remainder => cases compares
    | byZero divided => rcases divided with rfl | rfl <;> cases compares

/-- An operator that is not logical, on any two Ints. -/
theorem ofInts_binary (a b : Int64) (noLogic : op.opClass ≠ .logical) :
    OfInts a b op (binary op (.int a) (.int b)) := by
  cases op with
  | add => exact .number rfl nofun (wraps_iff_toInt_eq_bmod.mpr (Int64.toInt_add a b))
  | subtract => exact .number rfl nofun (wraps_iff_toInt_eq_bmod.mpr (Int64.toInt_sub a b))
  | multiply => exact .number rfl nofun (wraps_iff_toInt_eq_bmod.mpr (Int64.toInt_mul a b))
  | divide =>
    simp only [binary, intBinary]
    split
    · rename_i zero
      exact .byZero (.inl rfl) zero
    · rename_i divides
      exact .number rfl (fun _ => divides) (wraps_iff_toInt_eq_bmod.mpr (Int64.toInt_div a b))
  | remainder =>
    simp only [binary, intBinary]
    split
    · rename_i zero
      exact .byZero (.inr rfl) zero
    · rename_i divides
      exact .remainder divides (natAbs_toInt_mod_lt divides) (sign_toInt_mod a b)
        (dvd_sub_toInt_mod a b)
  | less | greater =>
    refine .comparison rfl ?_
    rw [decide_eq_true_iff]
    exact Int64.lt_iff_toInt_lt
  | lessEqual | greaterEqual =>
    refine .comparison rfl ?_
    rw [decide_eq_true_iff]
    exact Int64.le_iff_toInt_le
  | equal =>
    refine .comparison rfl ?_
    rw [equals, beq_iff_eq, Int64.toInt_inj]
  | notEqual =>
    refine .comparison rfl ?_
    rw [equals, Bool.not_eq_true', beq_eq_false_iff_ne, ne_eq, ne_eq, Int64.toInt_inj]
  | and | or => exact absurd rfl noLogic

theorem wraps_negate (a : Int64) :
    ∃ n, unary .negate (.int a) = .ok (.int n) ∧ Wraps (-a.toInt) n :=
  ⟨-a, rfl, wraps_iff_toInt_eq_bmod.mpr (Int64.toInt_neg a)⟩

/-- An Int is the product of its quotient by a divisor other than zero with that divisor, and the
remainder added. -/
theorem dividend_of_parts (a : Int64) (divides : b ≠ 0) : ∃ q p r,
    binary .divide (.int a) (.int b) = .ok (.int q) ∧
    binary .multiply (.int q) (.int b) = .ok (.int p) ∧
    binary .remainder (.int a) (.int b) = .ok (.int r) ∧
    binary .add (.int p) (.int r) = .ok (.int a) := by
  refine ⟨a / b, a / b * b, a % b, if_neg divides, rfl, if_neg divides, ?_⟩
  simp only [binary, intBinary, div_mul_add_mod]

end Value

/-! ## Operands of type Int -/

theorem Ty.eq_some_int_of_any {ty : Option Ty} (isInt : ty.any (·.same .int) = true) :
    ty = some .int := by
  obtain ⟨found, rfl, same⟩ := (Option.any_eq_true _ _).mp isInt
  rw [eq_int_of_same same]

namespace Rule

/-- On Ints, an operator is not logical, and what it gives is not text. -/
theorem plain_of_ints {op : BinaryOp} {ty : Ty} (typed : binaryType op .int .int = .ok ty) :
    op.opClass ≠ .logical ∧ ty ≠ .string := by
  cases op <;> cases typed <;> exact ⟨nofun, nofun⟩

end Rule

namespace Eval

variable {notes : Annotations} {machine middle after : Machine} {frame : FrameId} {mark : Mark}
  {op : BinaryOp} {less : Nat} {x y : Value}

/-- The operands of an operator that is not logical are evaluated one after the other. -/
theorem evaluate_binary {left right : Expr} (noLogic : op.opClass ≠ .logical)
    (leftRan : evaluate notes less (.expr frame left) machine = .ok x middle)
    (rightRan : evaluate notes less (.expr frame right) middle = .ok y after) :
    evaluate notes (less + 1) (.expr frame (.binary mark op left right)) machine =
      binary notes mark op x y after := by
  cases op with
  | and | or => exact absurd rfl noLogic
  | _ =>
    refine (bind_ok leftRan).trans ?_
    refine (bind_ok rightRan).trans ?_
    exact congrFun (bind_pure _) after

end Eval

namespace World

variable {known : Analysis} {w : World} {machine middle after : Machine} {frame : FrameId}
  {scope : ScopeId} {mark : Mark} {less : Nat} {x y : Value}

/-- A binary operator with operands of type Int. -/
theorem Types.binary_of_ints (types : w.Types known machine.heap) (accepted : known.Accepted)
    (home : w.scope? frame = some scope) {op : BinaryOp} {left right : Expr}
    (walked : known.Walked scope (.binary mark op left right))
    (leftTyped : known.notes.typeOf? left.id = some .int)
    (rightTyped : known.notes.typeOf? right.id = some .int)
    (leftRan : evaluate known.notes less (.expr frame left) machine = .ok x middle)
    (rightRan : evaluate known.notes less (.expr frame right) middle = .ok y after) :
    ∃ a b result, x = .int a ∧ y = .int b ∧ Value.OfInts a b op result ∧
      evaluate known.notes (less + 1) (.expr frame (.binary mark op left right)) machine =
        Eval.lift result mark.span after := by
  obtain ⟨expectation, step⟩ := walked.step
  obtain ⟨leftType, rightType, ty, leftFound, rightFound, fits, typed⟩ :=
    Rule.binary_holds_iff.mp (accepted.rule step rfl)
  rw [leftTyped] at leftFound
  rw [rightTyped] at rightFound
  cases leftFound
  cases rightFound
  obtain ⟨noLogic, noText⟩ := Rule.plain_of_ints fits
  obtain ⟨later, grown, typesLater, leftShape⟩ := types.yields accepted home
    (walked.part List.mem_cons_self) leftTyped leftRan
  obtain ⟨_, _, _, rightShape⟩ := typesLater.yields accepted (scope?_mono grown home)
    (walked.part (List.mem_cons_of_mem _ List.mem_cons_self)) rightTyped rightRan
  obtain ⟨a, rfl⟩ := leftShape.eq_int
  obtain ⟨b, rfl⟩ := rightShape.eq_int
  refine ⟨a, b, _, rfl, rfl, Value.ofInts_binary a b noLogic, ?_⟩
  rw [Eval.evaluate_binary noLogic leftRan rightRan, Eval.binary_of_plain typed noText]

/-- A prefix operator with an operand of type Int. -/
theorem Types.unary_of_int (types : w.Types known machine.heap) (accepted : known.Accepted)
    (home : w.scope? frame = some scope) {op : PrefixOp} {operand : Expr}
    (walked : known.Walked scope (.unary mark op operand))
    (operandTyped : known.notes.typeOf? operand.id = some .int)
    (ran : evaluate known.notes less (.expr frame operand) machine = .ok x after) :
    op = .negate ∧ ∃ a n, x = .int a ∧ Wraps (-a.toInt) n ∧
      evaluate known.notes (less + 1) (.expr frame (.unary mark op operand)) machine =
        .ok (.int n) after := by
  obtain ⟨expectation, step⟩ := walked.step
  obtain ⟨ty, found, fits⟩ := Rule.unary_holds_iff.mp (accepted.rule step rfl)
  rw [operandTyped] at found
  cases found
  cases op with
  | not => cases fits.1
  | negate =>
    obtain ⟨_, _, _, shape⟩ :=
      types.yields accepted home (walked.part List.mem_cons_self) operandTyped ran
    obtain ⟨a, rfl⟩ := shape.eq_int
    obtain ⟨n, negated, wraps⟩ := Value.wraps_negate a
    refine ⟨rfl, a, n, rfl, wraps, (Eval.bind_ok ran).trans ?_⟩
    exact congrArg (fun result => Eval.lift result mark.span after) negated

end World

/-! ## Runs -/

namespace Program

variable {file : String} {source : List Char} {program : Program} {notes : Annotations} {fuel : Nat}
    {output : Sink}
  {frame : FrameId} {mark : Mark} {machine : Machine}

/-- On any two Ints, an operator that is not logical gives what it is to give: exactly the result
modulo `2 ^ 64`, or the error of a division by zero and never another one. So does negation, and the
same operators make up the dividend again from a quotient and a remainder. Where a program comes by
an operator with operands of type Int that can be evaluated, they are Ints, and this is what it
gives on them. -/
theorem exact_on_ints (checked : checkSource file source = .ok (program, notes)) :
    (∀ {op : BinaryOp} {left right : Expr},
      ⟨.expr frame (.binary mark op left right), machine⟩ ∈
        program.visits notes fuel (.fresh output) →
      notes.typeOf? left.id = some .int → notes.typeOf? right.id = some .int →
      ∀ {less : Nat} {x y : Value} {middle after : Machine},
        evaluate notes less (.expr frame left) machine = .ok x middle →
        evaluate notes less (.expr frame right) middle = .ok y after →
        ∃ a b result, x = .int a ∧ y = .int b ∧ Value.OfInts a b op result ∧
          evaluate notes (less + 1) (.expr frame (.binary mark op left right)) machine =
            Eval.lift result mark.span after) ∧
    (∀ {op : PrefixOp} {operand : Expr},
      ⟨.expr frame (.unary mark op operand), machine⟩ ∈
        program.visits notes fuel (.fresh output) →
      notes.typeOf? operand.id = some .int →
      ∀ {less : Nat} {x : Value} {after : Machine},
        evaluate notes less (.expr frame operand) machine = .ok x after →
        op = .negate ∧ ∃ a n, x = .int a ∧ Wraps (-a.toInt) n ∧
          evaluate notes (less + 1) (.expr frame (.unary mark op operand)) machine =
            .ok (.int n) after) ∧
    ∀ a b : Int64,
      (∀ op : BinaryOp, op.opClass ≠ .logical →
        Value.OfInts a b op (Value.binary op (.int a) (.int b))) ∧
      (∃ n, Value.unary .negate (.int a) = .ok (.int n) ∧ Wraps (-a.toInt) n) ∧
      (b ≠ 0 → ∃ q p r,
        Value.binary .divide (.int a) (.int b) = .ok (.int q) ∧
        Value.binary .multiply (.int q) (.int b) = .ok (.int p) ∧
        Value.binary .remainder (.int a) (.int b) = .ok (.int r) ∧
        Value.binary .add (.int p) (.int r) = .ok (.int a)) := by
  have accepted := accepted_of_checkSource checked
  refine ⟨fun visited leftTyped rightTyped _ _ _ _ _ leftRan rightRan => ?_,
    fun visited operandTyped _ _ _ ran => ?_, fun a b =>
    ⟨fun _ => Value.ofInts_binary a b, Value.wraps_negate a, Value.dividend_of_parts a⟩⟩
  · obtain ⟨w, scope, types, home, walked⟩ := walked_of_visit accepted visited
    exact types.binary_of_ints accepted home walked leftTyped rightTyped leftRan rightRan
  · obtain ⟨w, scope, types, home, walked⟩ := walked_of_visit accepted visited
    exact types.unary_of_int accepted home walked operandTyped ran

/-- Whether an evaluation gives an Int. -/
def givesInt (n : Int64) : EStateM.Result Halt Machine Value → Bool
  | .ok (.int m) _ => m == n
  | _ => false

theorem ran_of_givesInt {n : Int64} {result : EStateM.Result Halt Machine Value}
    (given : givesInt n result = true) : ∃ after, result = .ok (.int n) after := by
  unfold givesInt at given
  split at given
  · rw [beq_iff_eq.mp given]
    exact ⟨_, rfl⟩
  · cases given

/-- Whether an expression is a division of an Int by another one. -/
def dividesInts (notes : Annotations) (a b : Int64) (frame : FrameId) : Expr → Machine → Bool
  | .binary _ .divide left right, machine =>
    (notes.typeOf? left.id).any (·.same .int) && (notes.typeOf? right.id).any (·.same .int) &&
    match evaluate notes 20 (.expr frame left) machine with
    | .ok (.int n) middle => n == a && givesInt b (evaluate notes 20 (.expr frame right) middle)
    | _ => false
  | _, _ => false

/-- The least Int divided by -1. -/
theorem exact_on_least_int : ∃ program notes frame mark left right machine middle after,
    checkSource "main.sigh" "var m = -9223372036854775807 - 1; m / -1".toList =
      .ok (program, notes) ∧
    ⟨.expr frame (.binary mark .divide left right), machine⟩ ∈
      program.visits notes 20 (.fresh .unlimited) ∧
    evaluate notes 20 (.expr frame left) machine = .ok (.int Int64.minValue) middle ∧
    evaluate notes 20 (.expr frame right) middle = .ok (.int (-1)) after ∧
    evaluate notes 21 (.expr frame (.binary mark .divide left right)) machine =
      .ok (.int Int64.minValue) after := by
  have passed : comesBy "main.sigh" "var m = -9223372036854775807 - 1; m / -1".toList 20
      (fun notes frame e machine => dividesInts notes Int64.minValue (-1) frame e machine) =
        true := by
    decide +kernel
  obtain ⟨program, notes, frame, e, machine, checked, visited, divides⟩ :=
    visited_of_comesBy passed
  unfold dividesInts at divides
  split at divides
  · rename_i mark left right
    rw [Bool.and_eq_true, Bool.and_eq_true] at divides
    obtain ⟨⟨leftTyped, rightTyped⟩, rans⟩ := divides
    split at rans
    · rename_i n middle leftRan
      obtain ⟨least, given⟩ := (Bool.and_eq_true _ _).mp rans
      obtain ⟨after, rightRan⟩ := ran_of_givesInt given
      rw [beq_iff_eq.mp least] at leftRan
      obtain ⟨a, b, result, sameLeft, sameRight, ofInts, ended⟩ := (exact_on_ints checked).1 visited
        (Ty.eq_some_int_of_any leftTyped) (Ty.eq_some_int_of_any rightTyped) leftRan rightRan
      cases sameLeft
      cases sameRight
      have least : Value.OfInts Int64.minValue (-1) .divide (.ok (.int Int64.minValue)) :=
        .number rfl (fun _ => by decide) (by decide)
      rw [ofInts.unique least] at ended
      exact ⟨program, notes, frame, mark, left, right, machine, middle, after, checked, visited,
        leftRan, rightRan, ended⟩
    · cases rans
  · cases divides

end Program

end BoxScript
