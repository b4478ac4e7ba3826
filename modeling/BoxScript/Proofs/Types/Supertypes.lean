import BoxScript.Proofs.Types.Assignability
import Mathlib.Order.Bounds.Basic

/-!
# Least supertypes

Assignability orders the types, up to sameness (`le_and_ge_iff_same`). Whatever has a supertype in
common is ordered itself (`le_or_ge_of_upper`). So the larger of two types is their least common
supertype, if they have any (`isLUB_of_commonSupertype?`, `isSome_commonSupertype?_iff`).

The common supertype of several types is taken from left to right. No step changes which types are
above all of them (`upperBounds_of_commonSupertype?`). So the last one is the least of these, and if
a step fails then there are none.
-/

set_option autoImplicit false

namespace BoxScript

namespace Ty

/-! ## The order -/

/-- A type is below those that it is assignable to. -/
instance : Preorder Ty where
  le a b := a.isAssignableTo b = true
  le_refl := isAssignableTo_refl
  le_trans _ _ _ := isAssignableTo_trans

variable {a b c : Ty}

theorem le_of_same (same : a.same b = true) : a ≤ b := isAssignableTo_of_same same

/-- Types that are assignable to each other are the same. -/
theorem le_and_ge_iff_same : a ≤ b ∧ b ≤ a ↔ a.same b = true := by
  refine ⟨fun ⟨below, above⟩ => ?_, fun same => ⟨le_of_same same, le_of_same (same_symm same)⟩⟩
  rcases isAssignableTo_iff.mp below with same | ⟨rfl, rfl⟩ | ⟨rfl, reference⟩
  · exact same
  · cases above
  · -- Nothing is assignable to the type of `null` but that type.
    rcases isAssignableTo_iff.mp above with same | ⟨_, impossible⟩ | ⟨rfl, _⟩
    · exact same_symm same
    · cases impossible
    · rfl

/-- Two types with a supertype in common are ordered. -/
theorem le_or_ge_of_upper (left : a ≤ c) (right : b ≤ c) : a ≤ b ∨ b ≤ a := by
  rcases isAssignableTo_iff.mp left with same | ⟨rfl, rfl⟩ | ⟨rfl, reference⟩
  · exact .inr (le_trans right (le_of_same (same_symm same)))
  · rcases isAssignableTo_iff.mp right with same | ⟨rfl, _⟩ | ⟨_, impossible⟩
    · exact .inl (le_trans left (le_of_same (same_symm same)))
    · exact .inl (le_refl _)
    · cases impossible
  · rcases isAssignableTo_iff.mp right with same | ⟨_, rfl⟩ | ⟨rfl, _⟩
    · exact .inl (le_trans left (le_of_same (same_symm same)))
    · cases reference
    · exact .inl (le_refl _)

/-! ## The common supertype of two types -/

theorem commonSupertype?_eq_none_iff : a.commonSupertype? b = none ↔ ¬ a ≤ b ∧ ¬ b ≤ a := by
  unfold commonSupertype?
  split
  · rename_i below
    exact iff_of_false nofun fun apart => apart.1 below
  · rename_i notBelow
    split
    · rename_i above
      exact iff_of_false nofun fun apart => apart.2 above
    · rename_i notAbove
      exact iff_of_true rfl ⟨notBelow, notAbove⟩

/-- The common supertype is the larger of the two types. -/
theorem isLUB_of_commonSupertype? (common : a.commonSupertype? b = some c) : IsLUB {a, b} c := by
  obtain ⟨left, right⟩ := commonSupertype?_bounds common
  have member : c ∈ ({a, b} : Set Ty) := by
    unfold commonSupertype? at common
    split at common
    · cases common
      exact .inr rfl
    · split at common
      · cases common
        exact .inl rfl
      · cases common
  refine IsGreatest.isLUB ⟨member, ?_⟩
  rintro _ (rfl | rfl)
  · exact left
  · exact right

/-- There is a common supertype where there is any supertype of both. -/
theorem isSome_commonSupertype?_iff : (a.commonSupertype? b).isSome = true ↔ BddAbove {a, b} := by
  cases common : a.commonSupertype? b with
  | some c => exact iff_of_true rfl ⟨c, (isLUB_of_commonSupertype? common).1⟩
  | none =>
    obtain ⟨notBelow, notAbove⟩ := commonSupertype?_eq_none_iff.mp common
    refine iff_of_false nofun fun ⟨upper, bound⟩ => ?_
    exact (le_or_ge_of_upper (bound (.inl rfl)) (bound (.inr rfl))).elim notBelow notAbove

/-- The order of the two types makes no difference. -/
theorem exists_commonSupertype?_swap (common : a.commonSupertype? b = some c) :
    ∃ d, b.commonSupertype? a = some d ∧ d.same c = true := by
  have least := isLUB_of_commonSupertype? common
  have both : (b.commonSupertype? a).isSome = true := by
    rw [isSome_commonSupertype?_iff, Set.pair_comm]
    exact ⟨c, least.1⟩
  obtain ⟨d, found⟩ := Option.isSome_iff_exists.mp both
  have leastToo := isLUB_of_commonSupertype? found
  rw [Set.pair_comm] at leastToo
  exact ⟨d, found, le_and_ge_iff_same.mp ⟨leastToo.2 least.1, least.2 leastToo.1⟩⟩

/-- Values can be compared for equality if their types are ordered. -/
theorem isComparableWith_iff : a.isComparableWith b = true ↔ a ≤ b ∨ b ≤ a := by
  simp only [isComparableWith, Bool.or_eq_true, Bool.and_eq_true]
  constructor
  · rintro (((same | ⟨left, right⟩) | ⟨isNull, reference⟩) | ⟨isNull, reference⟩)
    · exact .inl (le_of_same same)
    · cases a <;> cases left <;> cases b <;> cases right
      exacts [.inl rfl, .inl rfl, .inr rfl, .inl rfl]
    · cases a <;> cases isNull
      exact .inl (isAssignableTo_iff.mpr (.inr (.inr ⟨rfl, reference⟩)))
    · cases b <;> cases isNull
      exact .inr (isAssignableTo_iff.mpr (.inr (.inr ⟨rfl, reference⟩)))
  · rintro (below | above)
    · rcases isAssignableTo_iff.mp below with same | ⟨rfl, rfl⟩ | ⟨rfl, reference⟩
      · exact .inl (.inl (.inl same))
      · exact .inl (.inl (.inr ⟨rfl, rfl⟩))
      · exact .inl (.inr ⟨rfl, reference⟩)
    · rcases isAssignableTo_iff.mp above with same | ⟨rfl, rfl⟩ | ⟨rfl, reference⟩
      · exact .inl (.inl (.inl (same_symm same)))
      · exact .inl (.inl (.inr ⟨rfl, rfl⟩))
      · exact .inr ⟨rfl, reference⟩

theorem isComparableWith_eq : a.isComparableWith b = (a.commonSupertype? b).isSome := by
  rw [Bool.eq_iff_iff, isComparableWith_iff, Option.isSome_iff_ne_none, ne_eq,
    commonSupertype?_eq_none_iff, ← not_or, not_not]

/-! ## The common supertype of several types -/

variable {rest : List Ty}

theorem upperBounds_of_commonSupertype? (common : a.commonSupertype? b = some c) :
    upperBounds {ty | ty ∈ a :: b :: rest} = upperBounds {ty | ty ∈ c :: rest} := by
  obtain ⟨bound, least⟩ := isLUB_of_commonSupertype? common
  ext upper
  simp only [upperBounds, List.mem_cons, Set.mem_ofPred_eq, forall_eq_or_imp, ← and_assoc]
  refine and_congr_left fun _ => ⟨fun ⟨left, right⟩ => least ?_, fun above => ?_⟩
  · simp [upperBounds, left, right]
  · exact ⟨le_trans (bound (.inl rfl)) above, le_trans (bound (.inr rfl)) above⟩

theorem isLUB_of_foldlM (found : rest.foldlM commonSupertype? a = some c) :
    IsLUB {ty | ty ∈ a :: rest} c := by
  induction rest generalizing a with
  | nil =>
    cases found
    simp [isLUB_singleton]
  | cons b rest ih =>
    obtain ⟨next, common, others⟩ := Option.bind_eq_some_iff.mp found
    rw [IsLUB, upperBounds_of_commonSupertype? common]
    exact ih others

theorem not_bddAbove_of_foldlM (none : rest.foldlM commonSupertype? a = none) :
    ¬ BddAbove {ty | ty ∈ a :: rest} := by
  induction rest generalizing a with
  | nil => cases none
  | cons b rest ih =>
    cases common : a.commonSupertype? b with
    | none =>
      refine fun bounded => ?_
      have pair : BddAbove {a, b} := bounded.mono (by rintro _ (rfl | rfl) <;> simp)
      rw [← isSome_commonSupertype?_iff, common] at pair
      cases pair
    | some next =>
      rw [List.foldlM_cons, common] at none
      rw [BddAbove, upperBounds_of_commonSupertype? common]
      exact ih none

end Ty

end BoxScript
