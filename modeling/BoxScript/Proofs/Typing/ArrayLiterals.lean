import BoxScript.Proofs.Reporting.Arguments
import BoxScript.Proofs.Types.Supertypes

/-!
# Array literals with elements

The elements of an array literal are looked at from left to right, but their order makes no
difference to what the literal is (`Rule.component_least_in_every_order`). If there is a type to
which all of them are assignable, then in every order the component of the array is the least one of
these. If there is none, then in every order an error is reported, for the first element that does
not go together with those before it.

This holds because assignability is a preorder in which the common supertype of two types is their
least upper bound, which exists where there is any upper bound.
-/

set_option autoImplicit false

namespace BoxScript

/-- The types that some nodes have. -/
def Annotations.typesOf (notes : Annotations) (nodes : List NodeId) : Set Ty :=
  {ty | ∃ node ∈ nodes, notes.typeOf? node = some ty}

theorem Annotations.typesOf_perm {notes : Annotations} {nodes order : List NodeId}
    (perm : order.Perm nodes) : notes.typesOf order = notes.typesOf nodes := by
  ext ty
  simp only [typesOf, Set.mem_ofPred_eq, perm.mem_iff]

/-- The types of nodes, one by one. -/
theorem Annotations.typesOf_eq {notes : Annotations} {nodes : List NodeId} {types : List Ty}
    (typed : List.Forall₂ (fun node ty => notes.typeOf? node = some ty) nodes types) :
    notes.typesOf nodes = {ty | ty ∈ types} := by
  ext ty
  constructor
  · rintro ⟨node, member, read⟩
    obtain ⟨found, present, known⟩ := exists_of_forall₂_left typed member
    rw [read] at known
    cases known
    exact present
  · intro member
    obtain ⟨node, present, known⟩ := exists_of_forall₂_right typed member
    exact ⟨node, present, known⟩

/-- Nodes with types have a list of types. -/
theorem Annotations.exists_types {notes : Annotations} {nodes : List NodeId}
    (typed : ∀ node ∈ nodes, notes.typeOf? node ≠ none) :
    ∃ types, List.Forall₂ (fun node ty => notes.typeOf? node = some ty) nodes types := by
  induction nodes with
  | nil => exact ⟨[], .nil⟩
  | cons node rest ih =>
    obtain ⟨first, others⟩ := List.forall_mem_cons.mp typed
    obtain ⟨ty, read⟩ := Option.ne_none_iff_exists'.mp first
    obtain ⟨types, each⟩ := ih others
    exact ⟨ty :: types, .cons read each⟩

namespace Rule

open Script

variable {notes : Annotations} {elements : List NodeId} {types : List Ty} {component : Ty}
  {span : Span}

/-- The common type of elements is read off from left to right. Where there is none, the two types
that do not go together are reported. -/
theorem attempt_commonType
    (typed : List.Forall₂ (fun node ty => notes.typeOf? node = some ty) elements types)
    (next : Option Ty → Script Unit) :
    match types.foldlM Ty.commonSupertype? component with
    | some common => (commonType span component elements >>= next).attempt notes.facts =
        (next (some common)).attempt notes.facts
    | none => ∃ before ty, before.commonSupertype? ty = none ∧
        (commonType span component elements >>= next).attempt notes.facts =
          ((next none).attempt notes.facts).addError ⟨.mismatch (.elements before ty), span⟩ := by
  induction typed generalizing component with
  | nil => rfl
  | @cons element ty elements types read _ ih =>
    rw [commonType, bind_assoc, attempt_typeOf_bind read]
    rw [List.foldlM_cons]
    cases common : component.commonSupertype? ty with
    | none => exact ⟨component, ty, common, rfl⟩
    | some found => exact ih

/-- The rule of a literal comes to the least type to which all elements are assignable, or reports
that there is none. -/
theorem attempt_array (mark : Mark) (expectation : Expectation) (inhabited : elements ≠ [])
    (typed : ∀ element ∈ elements, notes.typeOf? element ≠ none) :
    (∃ component, IsLUB (notes.typesOf elements) component ∧
      (array mark elements expectation).attempt notes.symbols notes.facts =
        .completed [(⟨mark.id, .type⟩, .type (.array component))] []) ∨
    (¬ BddAbove (notes.typesOf elements) ∧ ∃ before ty, before.commonSupertype? ty = none ∧
      (array mark elements expectation).attempt notes.symbols notes.facts =
        .completed [] [⟨.mismatch (.elements before ty), mark.span⟩]) := by
  obtain ⟨first, rest, rfl⟩ := List.exists_cons_of_ne_nil inhabited
  obtain ⟨firstTyped, restTyped⟩ := List.forall_mem_cons.mp typed
  obtain ⟨ty, read⟩ := Option.ne_none_iff_exists'.mp firstTyped
  obtain ⟨types, each⟩ := Annotations.exists_types restTyped
  rw [Annotations.typesOf_eq (.cons read each)]
  have goes := fun next => @attempt_commonType notes rest types ty mark.span each next
  have starts : (array mark (first :: rest) expectation).attempt notes.symbols notes.facts =
      (commonType mark.span ty rest >>= fun
        | .some component => setType mark.id (.array component)
        | none => return ()).attempt notes.facts :=
    attempt_typeOf_bind read
  rw [starts]
  cases found : types.foldlM Ty.commonSupertype? ty with
  | some component =>
    rw [found] at goes
    exact .inl ⟨component, Ty.isLUB_of_foldlM found, goes _⟩
  | none =>
    rw [found] at goes
    obtain ⟨before, other, apart, reported⟩ := goes _
    exact .inr ⟨Ty.not_bddAbove_of_foldlM found, before, other, apart, reported⟩

/-- So it does in every order of the elements, by the same types. -/
theorem attempt_array_perm (mark : Mark) (expectation : Expectation) (inhabited : elements ≠ [])
    (typed : ∀ element ∈ elements, notes.typeOf? element ≠ none) {order : List NodeId}
    (perm : order.Perm elements) :
    (∃ component, IsLUB (notes.typesOf elements) component ∧
      (array mark order expectation).attempt notes.symbols notes.facts =
        .completed [(⟨mark.id, .type⟩, .type (.array component))] []) ∨
    (¬ BddAbove (notes.typesOf elements) ∧ ∃ before ty, before.commonSupertype? ty = none ∧
      (array mark order expectation).attempt notes.symbols notes.facts =
        .completed [] [⟨.mismatch (.elements before ty), mark.span⟩]) := by
  rw [← Annotations.typesOf_perm perm]
  refine attempt_array mark expectation ?_ fun element member =>
    typed element (perm.mem_iff.mp member)
  rintro rfl
  exact inhabited (List.Perm.nil_eq perm).symm

/-- Assignability is a preorder in which types are equivalent if they are the same. Two types have a
common supertype if there is any type above both, which is if their values can be compared for
equality. It is the least of these, whichever of the two types comes first. So the order of the
elements of an array literal makes no difference: either there is a least type to which all of them
are assignable, and in every order the literal is an array of it, or there is no type to which all
of them are assignable, and in every order that is reported. -/
theorem component_least_in_every_order (inhabited : elements ≠ [])
    (typed : ∀ element ∈ elements, notes.typeOf? element ≠ none) (mark : Mark)
    (expectation : Expectation) :
    ((∀ a : Ty, a.isAssignableTo a = true) ∧
      (∀ a b c : Ty, a.isAssignableTo b = true → b.isAssignableTo c = true →
        a.isAssignableTo c = true) ∧
      ∀ a b : Ty, a.isAssignableTo b = true ∧ b.isAssignableTo a = true ↔ a.same b = true) ∧
    (∀ a b : Ty,
      ((a.commonSupertype? b).isSome = true ↔ BddAbove {a, b}) ∧
      (a.commonSupertype? b).isSome = a.isComparableWith b ∧
      ∀ c, a.commonSupertype? b = some c →
        IsLUB {a, b} c ∧ ∃ d, b.commonSupertype? a = some d ∧ d.same c = true) ∧
    ((∃ least, IsLUB (notes.typesOf elements) least ∧ ∀ order, order.Perm elements →
        ∃ component, component.same least = true ∧
          (array mark order expectation).attempt notes.symbols notes.facts =
            .completed [(⟨mark.id, .type⟩, .type (.array component))] []) ∨
      (¬ BddAbove (notes.typesOf elements) ∧ ∀ order, order.Perm elements →
        ∃ before ty, before.commonSupertype? ty = none ∧
          (array mark order expectation).attempt notes.symbols notes.facts =
            .completed [] [⟨.mismatch (.elements before ty), mark.span⟩])) := by
  refine ⟨⟨Ty.isAssignableTo_refl, fun _ _ _ => Ty.isAssignableTo_trans,
    fun _ _ => Ty.le_and_ge_iff_same⟩, fun _ _ => ⟨Ty.isSome_commonSupertype?_iff,
    Ty.isComparableWith_eq.symm, fun _ common => ⟨Ty.isLUB_of_commonSupertype? common,
      Ty.exists_commonSupertype?_swap common⟩⟩, ?_⟩
  have goes := @attempt_array_perm notes elements mark expectation inhabited typed
  rcases goes (.refl elements) with ⟨least, isLeast, -⟩ | ⟨unbounded, -⟩
  · refine .inl ⟨least, isLeast, fun order perm => ?_⟩
    rcases goes perm with ⟨component, also, attempt⟩ | ⟨unbounded, -⟩
    · exact ⟨component, Ty.le_and_ge_iff_same.mp ⟨also.2 isLeast.1, isLeast.2 also.1⟩, attempt⟩
    · exact absurd ⟨least, isLeast.1⟩ unbounded
  · refine .inr ⟨unbounded, fun order perm => ?_⟩
    rcases goes perm with ⟨component, also, -⟩ | ⟨-, reported⟩
    · exact absurd ⟨component, also.1⟩ unbounded
    · exact reported

/-- `null` and one struct under two names. -/
theorem component_least_of_renamed_struct :
    let notes : Annotations :=
      ⟨((FactStore.empty.set ⟨1, .type⟩ (.type (.struct ⟨"P", 7⟩))).set ⟨2, .type⟩
        (.type .null)).set ⟨3, .type⟩ (.type (.struct ⟨"Q", 7⟩)), .empty⟩
    let mark : Mark := ⟨4, .within "main.sigh" 0 12⟩
    [1, 2, 3] ≠ [] ∧ (∀ element ∈ [1, 2, 3], notes.typeOf? element ≠ none) ∧
    ∀ order, order.Perm [1, 2, 3] → ∃ component, component.same (.struct ⟨"P", 7⟩) = true ∧
      (array mark order .none).attempt notes.symbols notes.facts =
        .completed [(⟨4, .type⟩, .type (.array component))] [] := by
  intro notes mark
  obtain ⟨one, two, three⟩ : notes.typeOf? 1 = some (.struct ⟨"P", 7⟩) ∧
      notes.typeOf? 2 = some .null ∧ notes.typeOf? 3 = some (.struct ⟨"Q", 7⟩) := by
    simp [notes, Annotations.typeOf?, Annotations.typeFact?, FactStore.known?, FactStore.get?_set]
  have typed : ∀ element ∈ [1, 2, 3], notes.typeOf? element ≠ none := by simp [one, two, three]
  have upper : Ty.struct ⟨"P", 7⟩ ∈ upperBounds (notes.typesOf [1, 2, 3]) := by
    rintro ty ⟨node, member, read⟩
    simp only [List.mem_cons, List.not_mem_nil, or_false] at member
    rcases member with rfl | rfl | rfl
    · cases one.symm.trans read
      exact le_refl _
    · cases two.symm.trans read
      rfl
    · cases three.symm.trans read
      rfl
  refine ⟨List.cons_ne_nil _ _, typed, fun order perm => ?_⟩
  rcases (component_least_in_every_order (List.cons_ne_nil _ _) typed mark .none).2.2 with
    ⟨least, isLeast, goes⟩ | ⟨unbounded, -⟩
  · obtain ⟨component, same, attempt⟩ := goes order perm
    have here : Ty.struct ⟨"P", 7⟩ ∈ notes.typesOf [1, 2, 3] := ⟨1, List.mem_cons_self, one⟩
    have isStruct := Ty.le_and_ge_iff_same.mp ⟨isLeast.2 upper, isLeast.1 here⟩
    exact ⟨component, Ty.same_trans same isStruct, attempt⟩
  · exact absurd ⟨_, upper⟩ unbounded

end Rule

end BoxScript
