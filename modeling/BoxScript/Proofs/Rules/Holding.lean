import BoxScript.Proofs.Rules.Script
import BoxScript.Typing.Annotations
import Mathlib.Data.List.Forall2

/-!
# Rules that hold

A rule holds under annotations if it completes on their facts without an error, and its answers are
among them (`Rule.Holds`). What this means for a rule that is a script can be computed: the script
ends on the facts with a property of its result and its writes (`Script.Ends`), and for each thing
that a script can do there is an equation.
-/

set_option autoImplicit false

namespace BoxScript

/-! ## Writing several answers -/

namespace FactStore

/-- The answer that the last write to a question gives. -/
def lastWrite? (key : FactKey) : List (FactKey × FactValue) → Option FactValue
  | [] => none
  | (other, value) :: rest => (lastWrite? key rest).or (if other = key then some value else none)

theorem get?_setAll (store : FactStore) (writes : List (FactKey × FactValue)) (key : FactKey) :
    (store.setAll writes).get? key =
      match lastWrite? key writes with
      | some value => some (.known value)
      | none => store.get? key := by
  induction writes generalizing store with
  | nil => rfl
  | cons write rest ih =>
    obtain ⟨other, value⟩ := write
    change ((store.set other value).setAll rest).get? key = _
    rw [ih, get?_set, lastWrite?]
    cases lastWrite? key rest with
    | some last => rfl
    | none =>
      by_cases same : other = key
      · simp [same]
      · simp [same]

/-- Whether answers are in a store, each as the last one to its question. -/
def Has (store : FactStore) (writes : List (FactKey × FactValue)) : Prop :=
  ∀ key value, lastWrite? key writes = some value → store.get? key = some (.known value)

end FactStore

/-- A rule that completes without an error and whose answers are there. -/
def Rule.Holds (notes : Annotations) (rule : Rule) : Prop :=
  ∃ writes, rule.attempt notes.symbols notes.facts = .completed writes [] ∧
    notes.facts.Has writes

/-! ## Answers that are there -/

namespace Annotations

/-- The number of the declaration that a reference means. -/
def declId? (notes : Annotations) (node : NodeId) : Option DeclId :=
  match notes.facts.known? ⟨node, .decl⟩ with
  | some (.decl id) => some id
  | _ => none

variable {notes : Annotations} {node : NodeId}

theorem typeOf?_eq_some {ty : Ty} : notes.typeOf? node = some ty ↔
    notes.facts.get? ⟨node, .type⟩ = some (.known (.type ty)) := by
  simp only [typeOf?, typeFact?, FactStore.known?]
  rcases notes.facts.get? ⟨node, .type⟩ with _ | ((_ | _ | _) | _) <;> simp

theorem declType?_eq_some {ty : Ty} : notes.declType? node = some ty ↔
    notes.facts.get? ⟨node, .declType⟩ = some (.known (.type ty)) := by
  simp only [declType?, typeFact?, FactStore.known?]
  rcases notes.facts.get? ⟨node, .declType⟩ with _ | ((_ | _ | _) | _) <;> simp

theorem declId?_eq_some {id : DeclId} : notes.declId? node = some id ↔
    notes.facts.get? ⟨node, .decl⟩ = some (.known (.decl id)) := by
  simp only [declId?, FactStore.known?]
  rcases notes.facts.get? ⟨node, .decl⟩ with _ | ((_ | _ | _) | _) <;> simp

theorem returns?_eq_some {value : Bool} : notes.returns? node = some value ↔
    notes.facts.get? ⟨node, .returns⟩ = some (.known (.flag value)) := by
  simp only [returns?, FactStore.known?]
  rcases notes.facts.get? ⟨node, .returns⟩ with _ | ((_ | _ | _) | _) <;> simp

/-- The declaration that a reference means is the one with its number. -/
theorem declOf?_eq_some {decl : Declaration} : notes.declOf? node = some decl ↔
    ∃ id, notes.declId? node = some id ∧ notes.symbols.decls[id]? = some decl := by
  simp only [declOf?, declId?]
  rcases notes.facts.known? ⟨node, .decl⟩ with _ | (_ | _ | _) <;> simp

theorem has_single {key : FactKey} {value : FactValue} :
    notes.facts.Has [(key, value)] ↔ notes.facts.get? key = some (.known value) := by
  constructor
  · intro has
    exact has key value (by simp [FactStore.lastWrite?])
  · rintro known other last written
    simp only [FactStore.lastWrite?, Option.none_or] at written
    split at written
    · rename_i same
      cases written
      exact same ▸ known
    · cases written

@[simp]
theorem has_nil : notes.facts.Has [] := by
  intro key value written
  cases written

@[simp]
theorem has_type {ty : Ty} :
    notes.facts.Has [(⟨node, .type⟩, .type ty)] ↔ notes.typeOf? node = some ty := by
  rw [has_single, typeOf?_eq_some]

@[simp]
theorem has_declType {ty : Ty} :
    notes.facts.Has [(⟨node, .declType⟩, .type ty)] ↔ notes.declType? node = some ty := by
  rw [has_single, declType?_eq_some]

@[simp]
theorem has_returns {value : Bool} :
    notes.facts.Has [(⟨node, .returns⟩, .flag value)] ↔ notes.returns? node = some value := by
  rw [has_single, returns?_eq_some]

/-- What a reference answers: its declaration and its type. -/
@[simp]
theorem has_reference {id : DeclId} {ty : Ty} :
    notes.facts.Has [(⟨node, .decl⟩, .decl id), (⟨node, .type⟩, .type ty)] ↔
      notes.declId? node = some id ∧ notes.typeOf? node = some ty := by
  rw [declId?_eq_some, typeOf?_eq_some]
  constructor
  · intro has
    exact ⟨has _ _ (by simp [FactStore.lastWrite?]), has _ _ (by simp [FactStore.lastWrite?])⟩
  · rintro ⟨reference, type⟩ key value written
    simp only [FactStore.lastWrite?, Option.none_or] at written
    split at written
    · rename_i same
      cases written
      exact same ▸ type
    · split at written
      · rename_i same
        cases written
        exact same ▸ reference
      · cases written

end Annotations

/-! ## Scripts that end -/

namespace Script

/-- Whether a script completes without an error in the store of some annotations, with a property of
its result and its writes. -/
def Ends {α : Type} (notes : Annotations) (script : Script α)
    (post : α → List (FactKey × FactValue) → Prop) : Prop :=
  ∃ a writes, script.result? notes.facts = some (a, writes) ∧ post a writes

variable {notes : Annotations} {node : NodeId}

theorem ends_bind {α β : Type} {script : Script α} {f : α → Script β}
    {post : β → List (FactKey × FactValue) → Prop} :
    (script >>= f).Ends notes post ↔
      script.Ends notes fun a first => (f a).Ends notes fun b rest => post b (first ++ rest) := by
  simp only [Ends, result?_bind_eq_some]
  constructor
  · rintro ⟨b, _, ⟨a, first, rest, before, after, rfl⟩, holds⟩
    exact ⟨a, first, before, b, rest, after, holds⟩
  · rintro ⟨a, first, before, b, rest, after, holds⟩
    exact ⟨b, _, ⟨a, first, rest, before, after, rfl⟩, holds⟩

@[simp]
theorem ends_pure {α : Type} {a : α} {post : α → List (FactKey × FactValue) → Prop} :
    (pure a : Script α).Ends notes post ↔ post a [] := by
  simp [Ends]

@[simp]
theorem ends_map {α β : Type} {script : Script α} {f : α → β}
    {post : β → List (FactKey × FactValue) → Prop} :
    (f <$> script).Ends notes post ↔ script.Ends notes fun a writes => post (f a) writes := by
  rw [map_eq_pure_bind, ends_bind]
  simp

@[simp]
theorem ends_error {cause : SemanticError.Cause} {span : Span}
    {post : Unit → List (FactKey × FactValue) → Prop} :
    ¬ (error cause span).Ends notes post := by
  simp [Ends]

@[simp]
theorem ends_drop {α : Type} {post : α → List (FactKey × FactValue) → Prop} :
    ¬ (drop : Script α).Ends notes post := by
  simp [Ends]

@[simp]
theorem ends_typeOf {post : Ty → List (FactKey × FactValue) → Prop} :
    (typeOf node).Ends notes post ↔ ∃ ty, notes.typeOf? node = some ty ∧ post ty [] := by
  simp only [Ends, typeOf, result?, Annotations.typeOf?, Annotations.typeFact?, FactStore.known?]
  rcases notes.facts.get? ⟨node, .type⟩ with _ | ((_ | _ | _) | _) <;> simp [result?]

@[simp]
theorem ends_declTypeOf {post : Ty → List (FactKey × FactValue) → Prop} :
    (declTypeOf node).Ends notes post ↔ ∃ ty, notes.declType? node = some ty ∧ post ty [] := by
  simp only [Ends, declTypeOf, result?, Annotations.declType?, Annotations.typeFact?,
    FactStore.known?]
  rcases notes.facts.get? ⟨node, .declType⟩ with _ | ((_ | _ | _) | _) <;> simp [result?]

@[simp]
theorem ends_declOf {post : DeclId → List (FactKey × FactValue) → Prop} :
    (declOf node).Ends notes post ↔ ∃ id, notes.declId? node = some id ∧ post id [] := by
  simp only [Ends, declOf, result?, Annotations.declId?, FactStore.known?]
  rcases notes.facts.get? ⟨node, .decl⟩ with _ | ((_ | _ | _) | _) <;> simp [result?]

@[simp]
theorem ends_returnsOf {post : Bool → List (FactKey × FactValue) → Prop} :
    (returnsOf node).Ends notes post ↔
      ∃ value, notes.returns? node = some value ∧ post value [] := by
  simp only [Ends, returnsOf, result?, Annotations.returns?, FactStore.known?]
  rcases notes.facts.get? ⟨node, .returns⟩ with _ | ((_ | _ | _) | _) <;> simp [result?]

theorem ends_of_result {script : Script Unit} {writes : List (FactKey × FactValue)}
    {post : Unit → List (FactKey × FactValue) → Prop}
    (result : script.result? notes.facts = some ((), writes)) :
    script.Ends notes post ↔ post () writes := by
  constructor
  · rintro ⟨_, _, found, holds⟩
    rw [result] at found
    cases found
    exact holds
  · intro holds
    exact ⟨(), writes, result, holds⟩

@[simp]
theorem ends_setType {ty : Ty} {post : Unit → List (FactKey × FactValue) → Prop} :
    (setType node ty).Ends notes post ↔ post () [(⟨node, .type⟩, .type ty)] :=
  ends_of_result (result?_setType notes.facts node ty)

@[simp]
theorem ends_setDeclType {ty : Ty} {post : Unit → List (FactKey × FactValue) → Prop} :
    (setDeclType node ty).Ends notes post ↔ post () [(⟨node, .declType⟩, .type ty)] :=
  ends_of_result (result?_setDeclType notes.facts node ty)

@[simp]
theorem ends_setDecl {id : DeclId} {post : Unit → List (FactKey × FactValue) → Prop} :
    (setDecl node id).Ends notes post ↔ post () [(⟨node, .decl⟩, .decl id)] :=
  ends_of_result (result?_setDecl notes.facts node id)

@[simp]
theorem ends_setReturns {value : Bool} {post : Unit → List (FactKey × FactValue) → Prop} :
    (setReturns node value).Ends notes post ↔ post () [(⟨node, .returns⟩, .flag value)] :=
  ends_of_result (result?_setReturns notes.facts node value)

/-- Reading about each of a list of things without writing. -/
theorem ends_mapM {α β : Type} {script : α → Script β} {answer : α → Option β}
    (reads : ∀ a {post : β → List (FactKey × FactValue) → Prop},
      (script a).Ends notes post ↔ ∃ b, answer a = some b ∧ post b [])
    {as : List α} {post : List β → List (FactKey × FactValue) → Prop} :
    (as.mapM script).Ends notes post ↔
      ∃ bs, List.Forall₂ (fun a b => answer a = some b) as bs ∧ post bs [] := by
  induction as generalizing post with
  | nil => simp
  | cons a as ih =>
    simp only [List.mapM_cons, ends_bind, reads, ih, ends_pure, List.append_nil,
      List.forall₂_cons_left_iff]
    constructor
    · rintro ⟨b, found, bs, others, holds⟩
      exact ⟨b :: bs, ⟨b, bs, found, others, rfl⟩, holds⟩
    · rintro ⟨_, ⟨b, bs, found, others, rfl⟩, holds⟩
      exact ⟨b, found, bs, others, holds⟩

end Script

theorem Rule.holds_ofScript {notes : Annotations} {produces : List FactKey} {what : String}
    {span : Span} {script : SymbolTable → Script Unit} :
    (Rule.ofScript produces what span script).Holds notes ↔
      (script notes.symbols).Ends notes fun _ writes => notes.facts.Has writes := by
  simp only [Rule.Holds, Rule.ofScript, Script.attempt_eq_completed_iff]
  constructor
  · rintro ⟨writes, result, has⟩
    exact ⟨(), writes, result, has⟩
  · rintro ⟨_, writes, result, has⟩
    exact ⟨writes, result, has⟩

end BoxScript
