import BoxScript.Proofs.Typing.System
import BoxScript.Proofs.Walking.Scopes

/-!
# The rules of expressions and the type system

The rules that the walk over an expression collects hold, and what the walk knows there is noted, if
and only if the type system has a type for the expression (`Walk.allHold_expr`). The walk passes on
where a type is expected from (`Expectation`), and the type system passes on the type itself; the
two go together as long as the expectation means the type.
-/

set_option autoImplicit false

namespace BoxScript

variable {notes : Annotations} {scope next : ScopeId}

/-! ## Steps that hold -/

namespace Step

/-- A step whose rules hold, and of which is noted what it knows. -/
structure Holds (notes : Annotations) (step : Step) : Prop where
  rules : ∀ rule ∈ step.rules, rule.Holds notes
  facts : ∀ fact ∈ step.facts, notes.facts.get? fact.1 = some (.known fact.2)

/-- Steps that all hold. -/
def AllHold (notes : Annotations) (steps : List Step) : Prop := ∀ step ∈ steps, step.Holds notes

@[simp]
theorem allHold_append {first second : List Step} :
    AllHold notes (first ++ second) ↔ AllHold notes first ∧ AllHold notes second :=
  List.forall_mem_append

@[simp]
theorem allHold_cons {step : Step} {rest : List Step} :
    AllHold notes (step :: rest) ↔ step.Holds notes ∧ AllHold notes rest :=
  List.forall_mem_cons

@[simp]
theorem allHold_nil : AllHold notes [] := by simp [AllHold]

@[simp]
theorem holds_rule {rule : Rule} : (Step.rule rule).Holds notes ↔ rule.Holds notes := by
  constructor
  · intro holds
    exact holds.rules rule List.mem_cons_self
  · intro holds
    exact ⟨by simpa [rules] using holds, by simp [facts]⟩

@[simp]
theorem holds_returns {mark : Mark} {value : Bool} :
    (Step.returns mark value).Holds notes ↔ notes.returns? mark.id = some value := by
  rw [Annotations.returns?_eq_some]
  constructor
  · intro holds
    exact holds.facts _ List.mem_cons_self
  · intro noted
    exact ⟨by simp [rules], by simpa [facts] using noted⟩

@[simp]
theorem holds_openScope {home parent : ScopeId} {kind : ScopeKind} :
    (Step.openScope home kind parent).Holds notes :=
  ⟨by simp [rules], by simp [facts]⟩

@[simp]
theorem holds_declare {name : String} {kind : DeclKind} {mark : Mark} {position : Nat} :
    (Step.declare scope name kind mark position).Holds notes :=
  ⟨by simp [rules], by simp [facts]⟩

@[simp]
theorem holds_setMembers {owner : NodeId} : (Step.setMembers owner scope).Holds notes :=
  ⟨by simp [rules], by simp [facts]⟩

theorem holds_typeExpr {type : TypeExpr} :
    (Step.typeExpr scope type).Holds notes ↔ (type.rule scope).Holds notes := by
  constructor
  · intro holds
    exact holds.rules _ List.mem_cons_self
  · intro holds
    exact ⟨by simpa [rules] using holds, by simp [facts]⟩

theorem holds_expr_known {expectation : Expectation} {e : Expr} {ty : Ty}
    (found : e.finding scope expectation = .known ty) :
    (Step.expr scope expectation e).Holds notes ↔ notes.typeOf? e.id = some ty := by
  rw [Annotations.typeOf?_eq_some]
  constructor
  · intro holds
    exact holds.facts (⟨e.id, .type⟩, .type ty) (by simp [facts, found])
  · intro noted
    exact ⟨by simp [rules, found], by simpa [facts, found] using noted⟩

theorem holds_expr_rule {expectation : Expectation} {e : Expr} {rule : Rule}
    (found : e.finding scope expectation = .rule rule) :
    (Step.expr scope expectation e).Holds notes ↔ rule.Holds notes := by
  constructor
  · intro holds
    exact holds.rules rule (by simp [rules, found])
  · intro holds
    exact ⟨by simpa [rules, found] using holds, by simp [facts, found]⟩

end Step

/-! ## Types that are noted -/

theorem Denotes.noted {type : TypeExpr} {ty : Ty} (denotes : Denotes notes scope type ty) :
    notes.typeOf? type.id = some ty := by
  cases denotes with
  | named _ _ noted => exact noted
  | array _ noted => exact noted

theorem HasType.noted {expected : Option Ty} {e : Expr} {ty : Ty}
    (typed : HasType notes scope expected e ty) : notes.typeOf? e.id = some ty := by
  cases typed with
  | intro _ noted => exact noted

theorem HasType.rule {expected : Option Ty} {e : Expr} {ty : Ty}
    (typed : HasType notes scope expected e ty) : ExprRule notes scope expected e ty := by
  cases typed with
  | intro rule _ => exact rule

/-- An expression has no other type than the one that is noted. -/
theorem HasType.eq {expected : Option Ty} {e : Expr} {ty other : Ty}
    (typed : HasType notes scope expected e ty) (noted : notes.typeOf? e.id = some other) :
    ty = other :=
  Option.some.inj (typed.noted.symm.trans noted)

theorem Denotes.eq {type : TypeExpr} {ty other : Ty} (denotes : Denotes notes scope type ty)
    (noted : notes.typeOf? type.id = some other) : ty = other :=
  Option.some.inj (denotes.noted.symm.trans noted)

/-! ## Operators -/

/-- The types of operands and conditions are the same as another only if they are equal to it. -/
theorem Ty.same_iff_eq {ty base : Ty}
    (plain : base = .int ∨ base = .float ∨ base = .bool ∨ base = .string ∨ base = .void) :
    ty.same base = true ↔ ty = base := by
  rcases plain with rfl | rfl | rfl | rfl | rfl <;> cases ty <;> simp [Ty.same]

theorem Ty.isNumeric_iff {ty : Ty} : ty.isNumeric = true ↔ ty = .int ∨ ty = .float := by
  cases ty <;> simp [Ty.isNumeric]

theorem PrefixOp.gives_iff {op : PrefixOp} {ty result : Ty} : op.Gives ty result ↔
    match op with
    | .not => ty.same .bool = true ∧ result = .bool
    | .negate => ty.isNumeric = true ∧ result = ty := by
  constructor
  · intro gives
    cases gives with
    | not => exact ⟨rfl, rfl⟩
    | negate numeric => exact ⟨numeric, rfl⟩
  · cases op with
    | not =>
      rintro ⟨isBool, rfl⟩
      rw [Ty.same_iff_eq (by simp)] at isBool
      exact isBool ▸ .not
    | negate =>
      rintro ⟨numeric, rfl⟩
      exact .negate numeric

theorem BinaryOp.Gives.binaryType {op : BinaryOp} {left right result : Ty}
    (gives : op.Gives left right result) : Rule.binaryType op left right = .ok result := by
  cases gives with
  | text text noVoid noVoidToo =>
    rcases text with rfl | rfl <;> simp_all [Rule.binaryType, opClass, Ty.same_iff_eq]
  | int arithmetic => simp [Rule.binaryType, arithmetic, Ty.same, Ty.isNumeric]
  | float arithmetic leftNumeric rightNumeric isFloat =>
    rcases Ty.isNumeric_iff.mp leftNumeric with rfl | rfl <;>
      rcases Ty.isNumeric_iff.mp rightNumeric with rfl | rfl <;>
        simp_all [Rule.binaryType, Ty.same]
  | relational relational leftNumeric rightNumeric =>
    simp [Rule.binaryType, relational, leftNumeric, rightNumeric]
  | logical logical => simp [Rule.binaryType, logical, Ty.same]
  | equality equality comparable => simp [Rule.binaryType, equality, comparable]

theorem BinaryOp.gives_of_binaryType {op : BinaryOp} {left right result : Ty}
    (fits : Rule.binaryType op left right = .ok result) : op.Gives left right result := by
  unfold Rule.binaryType at fits
  split at fits
  · rename_i arithmetic
    split at fits
    · rename_i isText
      cases fits
      obtain ⟨⟨⟨rfl, text⟩, noVoid⟩, noVoidToo⟩ :
          ((op = .add ∧ (left = .string ∨ right = .string)) ∧ left ≠ .void) ∧ right ≠ .void := by
        simpa [Ty.same_iff_eq, ← Bool.not_eq_true] using isText
      exact .text text noVoid noVoidToo
    · split at fits
      · rename_i numeric
        cases fits
        rw [Bool.and_eq_true] at numeric
        obtain ⟨leftNumeric, rightNumeric⟩ := numeric
        split
        · rename_i isFloat
          rw [Bool.or_eq_true, Ty.same_iff_eq (by simp), Ty.same_iff_eq (by simp)] at isFloat
          exact .float arithmetic leftNumeric rightNumeric isFloat
        · rename_i noFloat
          rcases Ty.isNumeric_iff.mp leftNumeric with rfl | rfl
          · rcases Ty.isNumeric_iff.mp rightNumeric with rfl | rfl
            · exact .int arithmetic
            · exact absurd rfl noFloat
          · exact absurd rfl noFloat
      · cases fits
  · rename_i relational
    split at fits
    · cases fits
    · rename_i numeric
      cases fits
      rw [List.find?_eq_none] at numeric
      exact .relational relational (by simpa using numeric left) (by simpa using numeric right)
  · rename_i logical
    split at fits
    · cases fits
    · rename_i bools
      cases fits
      rw [List.find?_eq_none] at bools
      obtain rfl : left = .bool := by
        simpa [Ty.same_iff_eq] using bools left (by simp)
      obtain rfl : right = .bool := by
        simpa [Ty.same_iff_eq] using bools right (by simp)
      exact .logical logical
  · rename_i equality
    split at fits
    · cases fits
      exact .equality equality ‹_›
    · cases fits

theorem BinaryOp.gives_iff {op : BinaryOp} {left right result : Ty} :
    op.Gives left right result ↔ Rule.binaryType op left right = .ok result :=
  ⟨Gives.binaryType, gives_of_binaryType⟩

theorem Rule.unary_holds_gives {mark : Mark} {op : PrefixOp} {operand : NodeId} :
    (Rule.unary mark op operand).Holds notes ↔ ∃ ty result, notes.typeOf? operand = some ty ∧
      op.Gives ty result ∧ notes.typeOf? mark.id = some result := by
  rw [Rule.unary_holds_iff]
  apply exists_congr
  intro ty
  cases op <;> simp [PrefixOp.gives_iff, and_assoc]

/-! ## Expectations -/

/-- An expectation means one thing. -/
theorem Expectation.Means.eq {expectation : Expectation} {expected other : Option Ty}
    (means : expectation.Means notes expected) (again : expectation.Means notes other) :
    expected = other := by
  induction expectation generalizing expected other with
  | none => exact means.trans again.symm
  | type node =>
    obtain ⟨ty, noted, rfl⟩ := means
    obtain ⟨_, notedToo, rfl⟩ := again
    exact noted.symm.trans notedToo
  | param callee index =>
    obtain ⟨ty, noted, rfl⟩ := means
    obtain ⟨_, notedToo, rfl⟩ := again
    obtain rfl := Option.some.inj (noted.symm.trans notedToo)
    rfl
  | element outer ih =>
    obtain ⟨around, meant, rfl⟩ := means
    obtain ⟨_, meantToo, rfl⟩ := again
    rw [ih meant meantToo]

/-! ## Expressions -/

/-- A type and those of further elements have a common supertype if it is that of the types that are
noted. -/
theorem haveCommonType_iff {expected : Option Ty} {ty component : Ty} {rest : List Expr} :
    HaveCommonType notes scope expected ty rest component ↔
      (∀ e ∈ rest, ∃ ty, HasType notes scope expected e ty) ∧
        notes.common? ty (rest.map Expr.id) = some component := by
  induction rest generalizing ty with
  | nil =>
    constructor
    · rintro ⟨⟩
      exact ⟨by simp, rfl⟩
    · rintro ⟨_, found⟩
      cases found
      exact .nil
  | cons e rest ih =>
    rw [List.forall_mem_cons]
    constructor
    · rintro (_ | ⟨typed, common, others⟩)
      obtain ⟨typedRest, found⟩ := ih.mp others
      refine ⟨⟨⟨_, typed⟩, typedRest⟩, ?_⟩
      simp [Annotations.common?, typed.noted, common, found]
    · rintro ⟨⟨⟨other, typed⟩, typedRest⟩, found⟩
      simp only [List.map_cons, Annotations.common?, typed.noted, Option.bind_some,
        Option.bind_eq_some_iff] at found
      obtain ⟨common, supertype, found⟩ := found
      exact .cons typed supertype (ih.mpr ⟨typedRest, found⟩)

theorem Annotations.Finds.eq {name : String} {position : Nat} {id other : DeclId}
    {decl otherDecl : Declaration} (finds : notes.Finds scope name position id decl)
    (again : notes.Finds scope name position other otherDecl) : id = other ∧ decl = otherDecl := by
  obtain rfl := Except.ok.inj (finds.looked.symm.trans again.looked)
  exact ⟨rfl, Option.some.inj (finds.present.symm.trans again.present)⟩

theorem Annotations.HasMember.eq {owner : NodeId} {name : String} {id other : DeclId}
    {decl otherDecl : Declaration} (has : notes.HasMember owner name id decl)
    (again : notes.HasMember owner name other otherDecl) : id = other ∧ decl = otherDecl := by
  obtain rfl := Option.some.inj (has.looked.symm.trans again.looked)
  exact ⟨rfl, Option.some.inj (has.present.symm.trans again.present)⟩

/-- A target with a type can be assigned to if it is a place. -/
theorem isPlace_iff : ∀ {target : Expr} {expected : Option Ty} {ty : Ty},
    HasType notes scope expected target ty →
    (IsPlace notes scope target ↔ Rule.Assignable notes target.bare)
  | .paren mark inner, expected, ty, typed => by
    cases typed.rule with
    | paren typedInner =>
      rw [Expr.bare, ← isPlace_iff typedInner]
      constructor
      · rintro ⟨⟩
        assumption
      · exact .paren
  | .symbol mark name, expected, ty, typed => by
    cases typed.rule with
    | symbol finds _ reference =>
      have meant := finds.declOf? reference
      constructor
      · rintro ⟨again, kind⟩
        obtain ⟨_, rfl⟩ := finds.eq again
        exact ⟨_, meant, kind⟩
      · rintro ⟨decl, noted, kind⟩
        obtain rfl := Option.some.inj (meant.symm.trans noted)
        exact .symbol finds kind
  | .index mark owner place, expected, ty, typed => ⟨fun _ => trivial, fun _ => .index⟩
  | .field mark receiver name, expected, ty, typed => by
    cases typed.rule with
    | length typedReceiver =>
      constructor
      · intro isPlace
        cases isPlace with
        | field isStruct => cases isStruct.eq typedReceiver.noted
      · rintro ⟨other, noted, noArray⟩
        obtain rfl := typedReceiver.eq noted
        cases noArray
    | field typedReceiver =>
      exact ⟨fun _ => ⟨_, typedReceiver.noted, rfl⟩, fun _ => .field typedReceiver⟩
  | .member mark receiver name, expected, ty, typed => by
    cases typed.rule with
    | member typedReceiver has _ reference =>
      have meant := Annotations.declOf?_eq_some.mpr ⟨_, reference, has.present⟩
      constructor
      · intro isPlace
        cases isPlace with
        | member typedToo hasToo kind =>
          cases typedToo.eq typedReceiver.noted
          obtain ⟨_, rfl⟩ := has.eq hasToo
          exact ⟨_, meant, kind⟩
      · rintro ⟨decl, noted, kind⟩
        obtain rfl := Option.some.inj (meant.symm.trans noted)
        exact .member typedReceiver has kind
  | .int _ _, _, _, _ | .float _ _, _, _, _ | .string _ _, _, _, _ | .bool _ _, _, _, _
  | .null _, _, _, _ | .array _ _, _, _, _ | .unary _ _ _, _, _, _ | .binary _ _ _ _, _, _, _
  | .assign _ _ _, _, _, _ | .call _ _ _, _, _, _ | .constructor _ _, _, _, _
  | .create _ _, _, _, _ => ⟨nofun, False.elim⟩

/-! ## The rule of each form -/

section Forms

variable {expected : Option Ty} {mark : Mark} {name : String}

theorem hasType_symbol_iff : (Rule.symbol mark name scope).Holds notes ↔
    ∃ ty, HasType notes scope expected (.symbol mark name) ty := by
  refine Rule.symbol_holds_iff.trans ?_
  constructor
  · rintro ⟨id, decl, ty, finds, type, reference, own⟩
    exact ⟨ty, .intro (.symbol finds type reference) own⟩
  · rintro ⟨ty, typed⟩
    cases typed.rule with
    | symbol finds type reference => exact ⟨_, _, ty, finds, type, reference, typed.noted⟩

theorem hasType_emptyArray_iff {expectation : Expectation}
    (means : expectation.Means notes expected) : (Rule.array mark [] expectation).Holds notes ↔
      ∃ ty, HasType notes scope expected (.array mark []) ty := by
  refine Rule.array_nil_holds_iff.trans ?_
  constructor
  · rintro ⟨component, meansToo, own⟩
    obtain rfl := means.eq meansToo
    exact ⟨_, .intro .emptyArray own⟩
  · rintro ⟨ty, typed⟩
    cases typed.rule with
    | emptyArray => exact ⟨_, means, typed.noted⟩

theorem hasType_array_iff {expectation : Expectation} {first : Expr} {rest : List Expr} :
    (∀ e ∈ first :: rest, ∃ ty, HasType notes scope (expected.bind Ty.component?) e ty) ∧
        (Rule.array mark ((first :: rest).map Expr.id) expectation).Holds notes ↔
      ∃ ty, HasType notes scope expected (.array mark (first :: rest)) ty := by
  rw [List.forall_mem_cons]
  refine (and_congr_right' Rule.array_cons_holds_iff).trans ?_
  constructor
  · rintro ⟨⟨⟨ty, typed⟩, others⟩, other, component, noted, common, own⟩
    obtain rfl := typed.eq noted
    exact ⟨_, .intro (.array typed (haveCommonType_iff.mpr ⟨others, common⟩)) own⟩
  · rintro ⟨ty, typed⟩
    cases typed.rule with
    | array typedFirst common =>
      obtain ⟨others, found⟩ := haveCommonType_iff.mp common
      exact ⟨⟨⟨_, typedFirst⟩, others⟩, _, _, typedFirst.noted, found, typed.noted⟩

theorem hasType_paren_iff {inner : Expr} :
    (∃ ty, HasType notes scope expected inner ty) ∧ (Rule.paren mark inner.id).Holds notes ↔
      ∃ ty, HasType notes scope expected (.paren mark inner) ty := by
  rw [Rule.paren_holds_iff]
  constructor
  · rintro ⟨⟨ty, typed⟩, other, noted, own⟩
    obtain rfl := typed.eq noted
    exact ⟨ty, .intro (.paren typed) own⟩
  · rintro ⟨ty, typed⟩
    cases typed.rule with
    | paren typedInner => exact ⟨⟨ty, typedInner⟩, ty, typedInner.noted, typed.noted⟩

theorem hasType_unary_iff {op : PrefixOp} {operand : Expr} :
    (∃ ty, HasType notes scope none operand ty) ∧
        (Rule.unary mark op operand.id).Holds notes ↔
      ∃ ty, HasType notes scope expected (.unary mark op operand) ty := by
  rw [Rule.unary_holds_gives]
  constructor
  · rintro ⟨⟨ty, typed⟩, other, result, noted, gives, own⟩
    obtain rfl := typed.eq noted
    exact ⟨result, .intro (.unary typed gives) own⟩
  · rintro ⟨result, typed⟩
    cases typed.rule with
    | unary typedOperand gives =>
      exact ⟨⟨_, typedOperand⟩, _, _, typedOperand.noted, gives, typed.noted⟩

theorem hasType_binary_iff {op : BinaryOp} {left right : Expr} :
    ((∃ ty, HasType notes scope none left ty) ∧ ∃ ty, HasType notes scope none right ty) ∧
        (Rule.binary mark op left.id right.id).Holds notes ↔
      ∃ ty, HasType notes scope expected (.binary mark op left right) ty := by
  rw [Rule.binary_holds_iff]
  constructor
  · rintro ⟨⟨⟨ty, typedLeft⟩, tyToo, typedRight⟩, other, otherToo, result, noted, notedToo, fits,
      own⟩
    obtain rfl := typedLeft.eq noted
    obtain rfl := typedRight.eq notedToo
    exact ⟨result, .intro (.binary typedLeft typedRight (BinaryOp.gives_iff.mpr fits)) own⟩
  · rintro ⟨result, typed⟩
    cases typed.rule with
    | binary typedLeft typedRight gives =>
      exact ⟨⟨⟨_, typedLeft⟩, _, typedRight⟩, _, _, _, typedLeft.noted, typedRight.noted,
        BinaryOp.gives_iff.mp gives, typed.noted⟩

/-- Whether the value has a type is asked only once the target has one. -/
theorem hasType_assign_iff {target value : Expr} {valued : Prop}
    (typedValue : ∀ {ty : Ty}, notes.typeOf? target.id = some ty →
      (valued ↔ ∃ valueType, HasType notes scope (some ty) value valueType)) :
    ((∃ ty, HasType notes scope none target ty) ∧ valued) ∧
        (Rule.assign mark target value.id).Holds notes ↔
      ∃ ty, HasType notes scope expected (.assign mark target value) ty := by
  rw [Rule.assign_holds_iff]
  constructor
  · rintro ⟨⟨⟨ty, typedTarget⟩, holds⟩, place, other, valueType, noted, valueNoted, fits, own⟩
    obtain rfl := typedTarget.eq noted
    obtain ⟨_, typed⟩ := (typedValue noted).mp holds
    obtain rfl := typed.eq valueNoted
    exact ⟨_, .intro (.assign typedTarget ((isPlace_iff typedTarget).mpr place) typed fits) own⟩
  · rintro ⟨ty, typed⟩
    cases typed.rule with
    | assign typedTarget place assigned fits =>
      exact ⟨⟨⟨_, typedTarget⟩, (typedValue typedTarget.noted).mpr ⟨_, assigned⟩⟩,
        (isPlace_iff typedTarget).mp place, _, _, typedTarget.noted, assigned.noted, fits,
        typed.noted⟩

/-- Whether the arguments fit is asked only once the callee has the type of a function. -/
theorem hasType_call_iff {callee : Expr} {given : List Expr} {passed : Prop}
    (fitting : ∀ {params : List Ty} {result : Ty},
      notes.typeOf? callee.id = some (.function params result) →
      (passed ∧ List.Forall₂ (fun param argument => ∃ ty, notes.typeOf? argument.id = some ty ∧
        ty.isAssignableTo param = true) params given ↔ Fit notes scope params given)) :
    ((∃ ty, HasType notes scope none callee ty) ∧ passed) ∧
        (Rule.call mark callee given).Holds notes ↔
      ∃ ty, HasType notes scope expected (.call mark callee given) ty := by
  rw [Rule.call_holds_iff]
  constructor
  · rintro ⟨⟨⟨ty, typedCallee⟩, holds⟩, params, result, noted, fits, own⟩
    obtain rfl := typedCallee.eq noted
    exact ⟨result, .intro (.call typedCallee ((fitting noted).mp ⟨holds, fits⟩)) own⟩
  · rintro ⟨result, typed⟩
    cases typed.rule with
    | call typedCallee fit =>
      obtain ⟨holds, fits⟩ := (fitting typedCallee.noted).mpr fit
      exact ⟨⟨⟨_, typedCallee⟩, holds⟩, _, _, typedCallee.noted, fits, typed.noted⟩

theorem hasType_index_iff {owner place : Expr} :
    ((∃ ty, HasType notes scope none owner ty) ∧ ∃ ty, HasType notes scope none place ty) ∧
        (Rule.index mark owner place).Holds notes ↔
      ∃ ty, HasType notes scope expected (.index mark owner place) ty := by
  rw [Rule.index_holds_iff]
  constructor
  · rintro ⟨⟨⟨ty, typedOwner⟩, tyToo, typedPlace⟩, component, placeType, noted, placeNoted, isInt,
      own⟩
    obtain rfl := typedOwner.eq noted
    obtain rfl := typedPlace.eq placeNoted
    obtain rfl := (Ty.same_iff_eq (by simp)).mp isInt
    exact ⟨component, .intro (.index typedOwner typedPlace) own⟩
  · rintro ⟨component, typed⟩
    cases typed.rule with
    | index typedOwner typedPlace =>
      exact ⟨⟨⟨_, typedOwner⟩, _, typedPlace⟩, _, _, typedOwner.noted, typedPlace.noted, rfl,
        typed.noted⟩

theorem hasType_field_iff {receiver : Expr} :
    (∃ ty, HasType notes scope none receiver ty) ∧
        (Rule.field mark receiver.id name).Holds notes ↔
      ∃ ty, HasType notes scope expected (.field mark receiver name) ty := by
  rw [Rule.field_holds_iff]
  constructor
  · rintro ⟨⟨ty, typedReceiver⟩, ⟨named, id, decl, result, noted, looked, present, type, reference,
      own⟩ | ⟨component, noted, rfl, own⟩⟩
    · obtain rfl := typedReceiver.eq noted
      exact ⟨result, .intro (.field typedReceiver ⟨looked, present⟩ type reference) own⟩
    · obtain rfl := typedReceiver.eq noted
      exact ⟨.int, .intro (.length typedReceiver) own⟩
  · rintro ⟨result, typed⟩
    cases typed.rule with
    | field typedReceiver has type reference =>
      exact ⟨⟨_, typedReceiver⟩, .inl ⟨_, _, _, _, typedReceiver.noted, has.looked, has.present,
        type, reference, typed.noted⟩⟩
    | length typedReceiver =>
      exact ⟨⟨_, typedReceiver⟩, .inr ⟨_, typedReceiver.noted, rfl, typed.noted⟩⟩

theorem hasType_member_iff {receiver : Expr} :
    (∃ ty, HasType notes scope none receiver ty) ∧
        (Rule.member mark receiver.id name).Holds notes ↔
      ∃ ty, HasType notes scope expected (.member mark receiver name) ty := by
  rw [Rule.member_holds_iff]
  constructor
  · rintro ⟨⟨ty, typedReceiver⟩, named, id, decl, result, noted, looked, present, type, reference,
      own⟩
    obtain rfl := typedReceiver.eq noted
    exact ⟨result, .intro (.member typedReceiver ⟨looked, present⟩ type reference) own⟩
  · rintro ⟨result, typed⟩
    cases typed.rule with
    | member typedReceiver has type reference =>
      exact ⟨⟨_, typedReceiver⟩, _, _, _, _, typedReceiver.noted, has.looked, has.present, type,
        reference, typed.noted⟩

theorem hasType_constructor_iff : (Rule.constructor mark name scope).Holds notes ↔
    ∃ ty, HasType notes scope expected (.constructor mark name) ty := by
  refine Rule.constructor_holds_iff.trans ?_
  constructor
  · rintro ⟨id, decl, named, fields, finds, isStruct, types, reference, own⟩
    exact ⟨_, .intro (.constructor finds isStruct types reference) own⟩
  · rintro ⟨ty, typed⟩
    cases typed.rule with
    | constructor finds isStruct types reference =>
      exact ⟨_, _, _, _, finds, isStruct, types, reference, typed.noted⟩

theorem hasType_create_iff : (Rule.create mark name scope).Holds notes ↔
    ∃ ty, HasType notes scope expected (.create mark name) ty := by
  refine Rule.create_holds_iff.trans ?_
  constructor
  · rintro ⟨id, decl, named, finds, isBox, reference, own⟩
    exact ⟨_, .intro (.create finds isBox reference) own⟩
  · rintro ⟨ty, typed⟩
    cases typed.rule with
    | create finds isBox reference => exact ⟨_, _, _, finds, isBox, reference, typed.noted⟩

end Forms

namespace Walk

open Step

theorem allHold_typeExpr {type : TypeExpr} :
    AllHold notes (typeExpr scope type) ↔ ∃ ty, Denotes notes scope type ty := by
  induction type with
  | named mark name =>
    simp only [typeExpr, allHold_cons, allHold_nil, and_true, holds_typeExpr, TypeExpr.rule,
      Rule.typeName_holds_iff]
    constructor
    · rintro ⟨id, decl, ty, finds, denoted, noted⟩
      exact ⟨ty, .named finds denoted noted⟩
    · rintro ⟨ty, ⟨finds, denoted, noted⟩⟩
      exact ⟨_, _, ty, finds, denoted, noted⟩
  | array mark component ih =>
    simp only [typeExpr, allHold_append, ih, allHold_cons, allHold_nil, and_true, holds_typeExpr,
      TypeExpr.rule, Rule.arrayType_holds_iff]
    constructor
    · rintro ⟨⟨ty, denotes⟩, other, noted, own⟩
      obtain rfl := denotes.eq noted
      exact ⟨_, .array denotes own⟩
    · rintro ⟨_, ⟨⟩ | ⟨denotes, own⟩⟩
      exact ⟨⟨_, denotes⟩, _, denotes.noted, own⟩

/-- The steps of an expression hold if those of its parts do, and its own rule. -/
theorem allHold_own {inside : List Step} {expectation : Expectation} {e : Expr} {rule : Rule}
    (found : e.finding scope expectation = .rule rule) :
    AllHold notes (inside ++ [.expr scope expectation e]) ↔
      AllHold notes inside ∧ rule.Holds notes := by
  rw [allHold_append, allHold_cons, holds_expr_rule found]
  simp

/-- The steps of an expression without parts hold if its own rule does. -/
theorem allHold_alone {expectation : Expectation} {e : Expr} {rule : Rule}
    (found : e.finding scope expectation = .rule rule) :
    AllHold notes [.expr scope expectation e] ↔ rule.Holds notes := by
  rw [← List.nil_append [Step.expr scope expectation e], allHold_own found]
  exact and_iff_right allHold_nil

/-- The type of a literal is known. -/
theorem allHold_literal {expectation : Expectation} {expected : Option Ty} {e : Expr} {ty : Ty}
    (found : e.finding scope expectation = .known ty)
    (rule : ∀ other, ExprRule notes scope expected e other ↔ other = ty) :
    AllHold notes [.expr scope expectation e] ↔ ∃ ty, HasType notes scope expected e ty := by
  rw [allHold_cons, holds_expr_known found]
  constructor
  · rintro ⟨noted, _⟩
    exact ⟨ty, .intro ((rule ty).mpr rfl) noted⟩
  · rintro ⟨other, own, noted⟩
    obtain rfl := (rule other).mp own
    exact ⟨noted, allHold_nil⟩

mutual

/-- The steps for an expression hold if the expression has a type. -/
theorem allHold_expr : ∀ (e : Expr) (expectation : Expectation) (expected : Option Ty),
    expectation.Means notes expected →
    (AllHold notes (expr scope expectation e) ↔ ∃ ty, HasType notes scope expected e ty)
  | .int mark value => fun expectation expected _ =>
    allHold_literal rfl fun other => ⟨by rintro ⟨⟩; rfl, by rintro rfl; exact .int⟩
  | .float mark value => fun expectation expected _ =>
    allHold_literal rfl fun other => ⟨by rintro ⟨⟩; rfl, by rintro rfl; exact .float⟩
  | .string mark value => fun expectation expected _ =>
    allHold_literal rfl fun other => ⟨by rintro ⟨⟩; rfl, by rintro rfl; exact .string⟩
  | .bool mark value => fun expectation expected _ =>
    allHold_literal rfl fun other => ⟨by rintro ⟨⟩; rfl, by rintro rfl; exact .bool⟩
  | .null mark => fun expectation expected _ =>
    allHold_literal rfl fun other => ⟨by rintro ⟨⟩; rfl, by rintro rfl; exact .null⟩
  | .symbol mark name => fun expectation expected _ =>
    (allHold_alone rfl).trans hasType_symbol_iff
  | .array mark [] => fun expectation expected means =>
    (allHold_alone rfl).trans (hasType_emptyArray_iff means)
  | .array mark (first :: rest) => by
    intro expectation expected means
    have inner : (Expectation.element expectation).Means notes (expected.bind Ty.component?) :=
      ⟨expected, means, rfl⟩
    rw [expr, allHold_own rfl, allHold_exprs (first :: rest) _ _ inner]
    exact hasType_array_iff
  | .paren mark inner => by
    intro expectation expected means
    rw [expr, allHold_own rfl, allHold_expr inner expectation expected means]
    exact hasType_paren_iff
  | .unary mark op operand => by
    intro expectation expected _
    rw [expr, allHold_own rfl, allHold_expr operand .none none rfl]
    exact hasType_unary_iff
  | .binary mark op left right => by
    intro expectation expected _
    rw [expr, allHold_own rfl, allHold_append, allHold_expr left .none none rfl,
      allHold_expr right .none none rfl]
    exact hasType_binary_iff
  | .assign mark target value => by
    intro expectation expected _
    rw [expr, allHold_own rfl, allHold_append, allHold_expr target .none none rfl]
    exact hasType_assign_iff fun noted =>
      allHold_expr value (.type target.id) _ ⟨_, noted, rfl⟩
  | .call mark callee given => by
    intro expectation expected _
    rw [expr, allHold_own rfl, allHold_append, allHold_expr callee .none none rfl]
    exact hasType_call_iff fun noted => allHold_arguments given callee.id 0 _ noted rfl
  | .index mark owner place => by
    intro expectation expected _
    rw [expr, allHold_own rfl, allHold_append, allHold_expr owner .none none rfl,
      allHold_expr place .none none rfl]
    exact hasType_index_iff
  | .field mark receiver name => by
    intro expectation expected _
    rw [expr, allHold_own rfl, allHold_expr receiver .none none rfl]
    exact hasType_field_iff
  | .member mark receiver name => by
    intro expectation expected _
    rw [expr, allHold_own rfl, allHold_expr receiver .none none rfl]
    exact hasType_member_iff
  | .constructor mark name => fun expectation expected _ =>
    (allHold_alone rfl).trans hasType_constructor_iff
  | .create mark name => fun expectation expected _ =>
    (allHold_alone rfl).trans hasType_create_iff

theorem allHold_exprs : ∀ (es : List Expr) (expectation : Expectation) (expected : Option Ty),
    expectation.Means notes expected →
    (AllHold notes (exprs scope expectation es) ↔ ∀ e ∈ es, ∃ ty, HasType notes scope expected e ty)
  | [] => by simp [exprs]
  | e :: rest => by
    intro expectation expected means
    rw [exprs, allHold_append, allHold_expr e expectation expected means,
      allHold_exprs rest expectation expected means, List.forall_mem_cons]

/-- The steps for arguments hold and the arguments have the types of parameters if they fit
these. -/
theorem allHold_arguments : ∀ (given : List Expr) (callee : NodeId) (index : Nat)
    (params : List Ty) {all : List Ty} {result : Ty},
    notes.typeOf? callee = some (.function all result) → all.drop index = params →
    (AllHold notes (arguments scope callee index given) ∧
      List.Forall₂ (fun param argument => ∃ ty, notes.typeOf? argument.id = some ty ∧
        ty.isAssignableTo param = true) params given ↔ Fit notes scope params given)
  | [] => by
    intro callee index params all result noted rest
    rw [arguments, List.forall₂_nil_right_iff]
    constructor
    · rintro ⟨_, rfl⟩
      exact .nil
    · rintro ⟨⟩
      exact ⟨allHold_nil, rfl⟩
  | e :: others => by
    intro callee index params all result noted rest
    cases params with
    | nil => exact ⟨nofun, nofun⟩
    | cons param params =>
      have here : all[index]? = some param := by
        rw [← List.head?_drop, rest, List.head?_cons]
      have after : all.drop (index + 1) = params := by
        rw [← List.tail_drop, rest, List.tail_cons]
      have means : (Expectation.param callee index).Means notes (some param) :=
        ⟨_, noted, here.symm⟩
      have further := allHold_arguments others callee (index + 1) params noted after
      rw [arguments, allHold_append, allHold_expr e _ _ means, List.forall₂_cons]
      constructor
      · rintro ⟨⟨⟨ty, typed⟩, holds⟩, ⟨_, argNoted, fits⟩, fit⟩
        obtain rfl := typed.eq argNoted
        exact .cons typed fits (further.mp ⟨holds, fit⟩)
      · rintro (_ | ⟨typed, fits, fit⟩)
        obtain ⟨holds, each⟩ := further.mpr fit
        exact ⟨⟨⟨_, typed⟩, holds⟩, ⟨_, typed.noted, fits⟩, each⟩

end

end Walk

end BoxScript
