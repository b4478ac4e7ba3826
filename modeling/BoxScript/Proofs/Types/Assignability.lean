import BoxScript.Ty
import Mathlib.Data.List.Forall2

/-!
# Assignability of types

Sameness of types is an equivalence, and assignability is a preorder (`isAssignableTo_trans`). The
common supertype of two types, where there is one, is a type to which both are assignable
(`commonSupertype?_bounds`). A supertype of a function, array, struct or box type is the same type.
-/

set_option autoImplicit false

namespace BoxScript

namespace Ty

/-! ## Sameness -/

mutual

@[simp]
theorem same_refl : ∀ t : Ty, t.same t = true
  | int | float | bool | string | void | null | type => rfl
  | array component => same_refl component
  | struct named | box named => by simp only [same, beq_self_eq_true]
  | function params result => by
    simp only [same, sameAll_refl params, same_refl result, Bool.and_self]

theorem sameAll_refl : ∀ ts : List Ty, sameAll ts ts = true
  | [] => rfl
  | t :: ts => by simp only [sameAll, same_refl t, sameAll_refl ts, Bool.and_self]

end

mutual

theorem same_symm : ∀ {a b : Ty}, a.same b = true → b.same a = true
  | int, b, h | float, b, h | bool, b, h | string, b, h | void, b, h | null, b, h | type, b, h => by
    cases b <;> simp_all [same]
  | array a, b, h => by
    cases b with
    | array b => exact same_symm (a := a) h
    | _ => simp [same] at h
  | struct a, b, h | box a, b, h => by
    cases b <;> simp_all [same]
  | function params result, b, h => by
    cases b with
    | function others other =>
      simp only [same, Bool.and_eq_true] at h ⊢
      exact ⟨sameAll_symm h.1, same_symm h.2⟩
    | _ => simp [same] at h

theorem sameAll_symm : ∀ {as bs : List Ty}, sameAll as bs = true → sameAll bs as = true
  | [], [], _ => rfl
  | a :: as, b :: bs, h => by
    simp only [sameAll, Bool.and_eq_true] at h ⊢
    exact ⟨same_symm h.1, sameAll_symm h.2⟩
  | [], _ :: _, h | _ :: _, [], h => by simp [sameAll] at h

end

mutual

theorem same_trans : ∀ {a b c : Ty}, a.same b = true → b.same c = true → a.same c = true
  | int, b, c, h, k | float, b, c, h, k | bool, b, c, h, k | string, b, c, h, k
  | void, b, c, h, k | null, b, c, h, k | type, b, c, h, k => by
    cases b <;> simp_all [same]
  | array a, b, c, h, k => by
    cases b with
    | array b =>
      cases c with
      | array c => exact same_trans (a := a) (b := b) h k
      | _ => simp [same] at k
    | _ => simp [same] at h
  | struct a, b, c, h, k | box a, b, c, h, k => by
    cases b <;> cases c <;> simp_all [same]
  | function params result, b, c, h, k => by
    cases b with
    | function others other =>
      cases c with
      | function last final =>
        simp only [same, Bool.and_eq_true] at h k ⊢
        exact ⟨sameAll_trans h.1 k.1, same_trans h.2 k.2⟩
      | _ => simp [same] at k
    | _ => simp [same] at h

theorem sameAll_trans : ∀ {as bs cs : List Ty},
    sameAll as bs = true → sameAll bs cs = true → sameAll as cs = true
  | [], [], [], _, _ => rfl
  | a :: as, b :: bs, c :: cs, h, k => by
    simp only [sameAll, Bool.and_eq_true] at h k ⊢
    exact ⟨same_trans h.1 k.1, sameAll_trans h.2 k.2⟩
  | [], _ :: _, _, h, _ | _ :: _, [], _, h, _ => by simp [sameAll] at h
  | [], [], _ :: _, _, k | _ :: _, _ :: _, [], _, k => by simp [sameAll] at k

end

theorem eq_bool_of_same {ty : Ty} (same : ty.same .bool = true) : ty = .bool := by
  cases ty <;> first | rfl | cases same

theorem eq_int_of_same {ty : Ty} (same : ty.same .int = true) : ty = .int := by
  cases ty <;> first | rfl | cases same

theorem eq_void_of_same {ty : Ty} (same : ty.same .void = true) : ty = .void := by
  cases ty <;> first | rfl | cases same

theorem isReference_of_same {a b : Ty} (same : a.same b = true) :
    a.isReference = b.isReference := by
  cases a <;> cases b <;> simp_all [Ty.same, isReference]

/-- Lists of the same types are equally long, and agree position by position. -/
theorem sameAll_iff {as bs : List Ty} :
    sameAll as bs = true ↔ List.Forall₂ (fun a b => Ty.same a b = true) as bs := by
  induction as generalizing bs with
  | nil => cases bs <;> simp [sameAll]
  | cons a as ih => cases bs <;> simp [sameAll, ih]

/-! ## Assignability -/

@[simp]
theorem isAssignableTo_refl (t : Ty) : t.isAssignableTo t = true := by
  simp only [isAssignableTo, same_refl, Bool.true_or]

theorem isAssignableTo_of_same {a b : Ty} (same : a.same b = true) :
    a.isAssignableTo b = true := by
  simp only [isAssignableTo, same, Bool.true_or]

/-- The three ways in which a type is assignable to another. -/
theorem isAssignableTo_iff {a b : Ty} :
    a.isAssignableTo b = true ↔
      a.same b = true ∨ (a = int ∧ b = float) ∨ (a = null ∧ b.isReference = true) := by
  cases a <;> cases b <;> simp [isAssignableTo, same, isReference]

theorem isAssignableTo_trans {a b c : Ty} (first : a.isAssignableTo b = true)
    (second : b.isAssignableTo c = true) : a.isAssignableTo c = true := by
  rcases isAssignableTo_iff.mp first with same | ⟨rfl, rfl⟩ | ⟨rfl, reference⟩
  · rcases isAssignableTo_iff.mp second with next | ⟨rfl, rfl⟩ | ⟨rfl, reference⟩
    · exact isAssignableTo_of_same (same_trans same next)
    · cases a <;> simp_all [Ty.same, isAssignableTo]
    · cases a <;> simp_all [Ty.same, isAssignableTo]
  · have : c = float := by
      cases c <;> simp_all [isAssignableTo, Ty.same]
    subst this
    rfl
  · refine isAssignableTo_iff.mpr (.inr (.inr ⟨rfl, ?_⟩))
    rcases isAssignableTo_iff.mp second with next | ⟨rfl, rfl⟩ | ⟨_, reference⟩
    · rw [← isReference_of_same next, reference]
    · simp [isReference] at reference
    · exact reference

/-- Both types are assignable to their common supertype. -/
theorem commonSupertype?_bounds {a b c : Ty} (common : a.commonSupertype? b = some c) :
    a.isAssignableTo c = true ∧ b.isAssignableTo c = true := by
  unfold commonSupertype? at common
  split at common
  · cases common
    exact ⟨‹_›, isAssignableTo_refl b⟩
  · split at common
    · cases common
      exact ⟨isAssignableTo_refl a, ‹_›⟩
    · cases common

end Ty

end BoxScript
