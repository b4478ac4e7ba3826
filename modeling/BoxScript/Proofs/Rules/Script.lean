import BoxScript.Typing.Annotations
import BoxScript.Rule

/-!
# What scripts come to

A script is read in two ways. `Script.result?` is what it comes to on a store where it completes
without an error: its result and what it writes. An attempt completes without errors exactly if the
script comes to something (`attempt_eq_completed_iff`).

`Script.Disciplined` says of a script, whatever the store holds, that it is never dropped as long as
the answers in the store are of the sort that their questions ask for, and that it answers only
questions of a given list, and with answers of the right sort. The attempt at such a script on a
store of that kind completes or waits (`attempt_of_disciplined`).
-/

set_option autoImplicit false

namespace BoxScript

namespace Script

/-! ## Scripts as a monad -/

theorem bind_done {α : Type} (script : Script α) : script.bind done = script := by
  induction script with
  | done result => rfl
  | read key next ih => simp only [bind, ih]
  | write key value next ih => simp only [bind, ih]
  | report error next ih => simp only [bind, ih]
  | drop => rfl

theorem bind_bind {α β γ : Type} (script : Script α) (f : α → Script β) (g : β → Script γ) :
    (script.bind f).bind g = script.bind fun a => (f a).bind g := by
  induction script with
  | done result => rfl
  | read key next ih => simp only [bind, ih]
  | write key value next ih => simp only [bind, ih]
  | report error next ih => simp only [bind, ih]
  | drop => rfl

instance : LawfulMonad Script :=
  LawfulMonad.mk' Script bind_done (fun _ _ => rfl) bind_bind

/-! ## Completion without errors -/

/-- The result and the writes of a script that completes on a store without an error. -/
def result? {α : Type} (facts : FactStore) : Script α → Option (α × List (FactKey × FactValue))
  | done result => some (result, [])
  | read key next =>
    match facts.get? key with
    | some (.known value) => (next value).result? facts
    | _ => none
  | write key value next =>
    (next.result? facts).map fun (result, writes) => (result, (key, value) :: writes)
  | report _ _ => none
  | drop => none

theorem addError_ne_completed_nil (error : SemanticError) (attempt : Attempt)
    (writes : List (FactKey × FactValue)) : attempt.addError error ≠ .completed writes [] := by
  cases attempt <;> simp [Attempt.addError]

theorem addWrite_eq_completed_iff {key : FactKey} {value : FactValue} {attempt : Attempt}
    {writes : List (FactKey × FactValue)} {errors : List SemanticError} :
    attempt.addWrite key value = .completed writes errors ↔
      ∃ rest, attempt = .completed rest errors ∧ writes = (key, value) :: rest := by
  cases attempt with
  | completed rest found =>
    simp only [Attempt.addWrite, Attempt.completed.injEq]
    constructor
    · rintro ⟨rfl, rfl⟩
      exact ⟨rest, ⟨rfl, rfl⟩, rfl⟩
    · rintro ⟨_, ⟨rfl, rfl⟩, rfl⟩
      trivial
  | missing key => simp [Attempt.addWrite]
  | poisoned => simp [Attempt.addWrite]

theorem result?_write_eq_some {α : Type} {facts : FactStore} {key : FactKey} {value : FactValue}
    {next : Script α} {a : α} {writes : List (FactKey × FactValue)} :
    (write key value next).result? facts = some (a, writes) ↔
      ∃ rest, next.result? facts = some (a, rest) ∧ writes = (key, value) :: rest := by
  simp only [result?, Option.map_eq_some_iff]
  constructor
  · rintro ⟨⟨_, rest⟩, found, equal⟩
    cases equal
    exact ⟨rest, found, rfl⟩
  · rintro ⟨rest, found, rfl⟩
    exact ⟨(a, rest), found, rfl⟩

theorem attempt_eq_completed_iff {facts : FactStore} {script : Script Unit}
    {writes : List (FactKey × FactValue)} :
    script.attempt facts = .completed writes [] ↔ script.result? facts = some ((), writes) := by
  induction script generalizing writes with
  | done result =>
    simp only [attempt, result?, Attempt.completed.injEq, and_true, Option.some.injEq,
      Prod.mk.injEq, true_and]
  | read key next ih =>
    simp only [attempt, result?]
    rcases facts.get? key with _ | (value | _)
    · simp
    · exact ih value
    · simp
  | write key value next ih =>
    simp only [attempt, addWrite_eq_completed_iff, ih, result?_write_eq_some]
  | report error next _ =>
    simp only [attempt, result?, reduceCtorEq, iff_false]
    exact addError_ne_completed_nil error _ writes
  | drop => simp [attempt, result?]

/-- A script of two parts comes to something if the first does, and the second after it. -/
theorem result?_bind_eq_some {α β : Type} {facts : FactStore} {script : Script α}
    {f : α → Script β} {b : β} {writes : List (FactKey × FactValue)} :
    (script >>= f).result? facts = some (b, writes) ↔
      ∃ a first rest, script.result? facts = some (a, first) ∧
        (f a).result? facts = some (b, rest) ∧ writes = first ++ rest := by
  change (script.bind f).result? facts = some (b, writes) ↔ _
  induction script generalizing writes with
  | done result =>
    simp only [bind, result?, Option.some.injEq, Prod.mk.injEq]
    constructor
    · intro found
      exact ⟨result, [], writes, ⟨rfl, rfl⟩, found, rfl⟩
    · rintro ⟨_, _, rest, ⟨rfl, rfl⟩, found, rfl⟩
      exact found
  | read key next ih =>
    simp only [bind, result?]
    rcases facts.get? key with _ | (value | _)
    · simp
    · exact ih value
    · simp
  | write key value next ih =>
    simp only [bind, result?_write_eq_some, ih]
    constructor
    · rintro ⟨_, ⟨a, first, rest, found, later, rfl⟩, rfl⟩
      exact ⟨a, (key, value) :: first, rest, ⟨first, found, rfl⟩, later, rfl⟩
    · rintro ⟨a, _, rest, ⟨first, found, rfl⟩, later, rfl⟩
      exact ⟨first ++ rest, ⟨a, first, rest, found, later, rfl⟩, rfl⟩
  | report error next _ => simp [bind, result?]
  | drop => simp [bind, result?]

@[simp]
theorem result?_pure {α : Type} (facts : FactStore) (a : α) :
    (pure a : Script α).result? facts = some (a, []) := rfl

@[simp]
theorem result?_error (facts : FactStore) (cause : SemanticError.Cause) (span : Span) :
    (error cause span).result? facts = none := rfl

@[simp]
theorem result?_drop {α : Type} (facts : FactStore) :
    (drop : Script α).result? facts = none := rfl

@[simp]
theorem result?_setType (facts : FactStore) (node : NodeId) (ty : Ty) :
    (setType node ty).result? facts = some ((), [(⟨node, .type⟩, .type ty)]) := rfl

@[simp]
theorem result?_setDeclType (facts : FactStore) (node : NodeId) (ty : Ty) :
    (setDeclType node ty).result? facts = some ((), [(⟨node, .declType⟩, .type ty)]) := rfl

@[simp]
theorem result?_setDecl (facts : FactStore) (node : NodeId) (id : DeclId) :
    (setDecl node id).result? facts = some ((), [(⟨node, .decl⟩, .decl id)]) := rfl

@[simp]
theorem result?_setReturns (facts : FactStore) (node : NodeId) (value : Bool) :
    (setReturns node value).result? facts = some ((), [(⟨node, .returns⟩, .flag value)]) := rfl

/-! ## Discipline -/

end Script

/-- Whether an answer is of the sort that a question asks for. A declaration is one of the table. -/
def FactValue.Answers (symbols : SymbolTable) (key : FactKey) : FactValue → Prop
  | .type _ => key.kind = .type ∨ key.kind = .declType
  | .decl id => key.kind = .decl ∧ id < symbols.decls.size
  | .flag _ => key.kind = .returns

/-- A store in which no question is poisoned and all answers are of the right sort. -/
def FactStore.Sound (symbols : SymbolTable) (facts : FactStore) : Prop :=
  ∀ key slot, facts.get? key = some slot → ∃ value, slot = .known value ∧ value.Answers symbols key

namespace Script

/-- A script that is never dropped while the answers are of the right sort, that answers only
questions of a list, with answers of the right sort, and whose result has a property. -/
def Disciplined {α : Type} (symbols : SymbolTable) (produces : List FactKey) :
    Script α → (α → Prop) → Prop
  | done result, post => post result
  | read key next, post =>
    ∀ value, value.Answers symbols key → (next value).Disciplined symbols produces post
  | write key value next, post =>
    key ∈ produces ∧ value.Answers symbols key ∧ next.Disciplined symbols produces post
  | report _ next, post => next.Disciplined symbols produces post
  | drop, _ => False

variable {symbols : SymbolTable} {produces : List FactKey}

theorem disciplined_bind {α β : Type} {script : Script α} {f : α → Script β} {post : β → Prop} :
    (script >>= f).Disciplined symbols produces post ↔
      script.Disciplined symbols produces fun a => (f a).Disciplined symbols produces post := by
  change (script.bind f).Disciplined symbols produces post ↔ _
  induction script with
  | done result => rfl
  | read key next ih => simp only [bind, Disciplined, ih]
  | write key value next ih => simp only [bind, Disciplined, ih]
  | report error next ih => simp only [bind, Disciplined, ih]
  | drop => rfl

theorem Disciplined.mono {α : Type} {script : Script α} {post weaker : α → Prop}
    (disciplined : script.Disciplined symbols produces post) (implies : ∀ a, post a → weaker a) :
    script.Disciplined symbols produces weaker := by
  induction script with
  | done result => exact implies result disciplined
  | read key next ih => exact fun value answers => ih value (disciplined value answers)
  | write key value next ih => exact ⟨disciplined.1, disciplined.2.1, ih disciplined.2.2⟩
  | report error next ih => exact ih disciplined
  | drop => exact disciplined

@[simp]
theorem disciplined_pure {α : Type} {a : α} {post : α → Prop} :
    (pure a : Script α).Disciplined symbols produces post ↔ post a := Iff.rfl

@[simp]
theorem disciplined_error {cause : SemanticError.Cause} {span : Span} {post : Unit → Prop} :
    (error cause span).Disciplined symbols produces post ↔ post () := Iff.rfl

@[simp]
theorem disciplined_typeOf {node : NodeId} {post : Ty → Prop} :
    (typeOf node).Disciplined symbols produces post ↔ ∀ ty, post ty := by
  constructor
  · intro disciplined ty
    exact disciplined (.type ty) (.inl rfl)
  · rintro all (ty | id | value) answers
    · exact all ty
    · cases answers.1
    · cases answers

@[simp]
theorem disciplined_declTypeOf {node : NodeId} {post : Ty → Prop} :
    (declTypeOf node).Disciplined symbols produces post ↔ ∀ ty, post ty := by
  constructor
  · intro disciplined ty
    exact disciplined (.type ty) (.inr rfl)
  · rintro all (ty | id | value) answers
    · exact all ty
    · cases answers.1
    · cases answers

@[simp]
theorem disciplined_declOf {node : NodeId} {post : DeclId → Prop} :
    (declOf node).Disciplined symbols produces post ↔ ∀ id < symbols.decls.size, post id := by
  constructor
  · intro disciplined id bound
    exact disciplined (.decl id) ⟨rfl, bound⟩
  · rintro all (ty | id | value) answers
    · rcases answers with absent | absent <;> cases absent
    · exact all id answers.2
    · cases answers

@[simp]
theorem disciplined_returnsOf {node : NodeId} {post : Bool → Prop} :
    (returnsOf node).Disciplined symbols produces post ↔ ∀ value, post value := by
  constructor
  · intro disciplined value
    exact disciplined (.flag value) rfl
  · rintro all (ty | id | value) answers
    · rcases answers with absent | absent <;> cases absent
    · cases answers.1
    · exact all value

@[simp]
theorem disciplined_setType {node : NodeId} {ty : Ty} {post : Unit → Prop} :
    (setType node ty).Disciplined symbols produces post ↔
      ⟨node, .type⟩ ∈ produces ∧ post () := by
  simp [setType, Disciplined, FactValue.Answers]

@[simp]
theorem disciplined_setDeclType {node : NodeId} {ty : Ty} {post : Unit → Prop} :
    (setDeclType node ty).Disciplined symbols produces post ↔
      ⟨node, .declType⟩ ∈ produces ∧ post () := by
  simp [setDeclType, Disciplined, FactValue.Answers]

@[simp]
theorem disciplined_setDecl {node : NodeId} {id : DeclId} {post : Unit → Prop} :
    (setDecl node id).Disciplined symbols produces post ↔
      ⟨node, .decl⟩ ∈ produces ∧ id < symbols.decls.size ∧ post () := by
  simp [setDecl, Disciplined, FactValue.Answers]

@[simp]
theorem disciplined_setReturns {node : NodeId} {value : Bool} {post : Unit → Prop} :
    (setReturns node value).Disciplined symbols produces post ↔
      ⟨node, .returns⟩ ∈ produces ∧ post () := by
  simp [setReturns, Disciplined, FactValue.Answers]

/-- What an attempt at a disciplined script may come to. -/
def Obeys (symbols : SymbolTable) (produces : List FactKey) : Attempt → Prop
  | .completed writes _ => ∀ write ∈ writes, write.1 ∈ produces ∧ write.2.Answers symbols write.1
  | .missing _ => True
  | .poisoned => False

theorem attempt_of_disciplined {script : Script Unit} {post : Unit → Prop} {facts : FactStore}
    (disciplined : script.Disciplined symbols produces post) (sound : facts.Sound symbols) :
    Obeys symbols produces (script.attempt facts) := by
  induction script with
  | done result => simp [attempt, Obeys]
  | read key next ih =>
    simp only [attempt]
    cases found : facts.get? key with
    | none => trivial
    | some slot =>
      obtain ⟨value, rfl, answers⟩ := sound key slot found
      exact ih value (disciplined value answers)
  | write key value next ih =>
    have rest := ih disciplined.2.2
    simp only [attempt]
    cases attempted : next.attempt facts with
    | completed writes errors =>
      rw [attempted] at rest
      intro write member
      rcases List.mem_cons.mp member with rfl | member
      · exact ⟨disciplined.1, disciplined.2.1⟩
      · exact rest write member
    | missing key => trivial
    | poisoned =>
      rw [attempted] at rest
      exact rest
  | report error next ih =>
    have rest := ih disciplined
    simp only [attempt]
    cases attempted : next.attempt facts with
    | completed writes errors =>
      rw [attempted] at rest
      exact rest
    | missing key => trivial
    | poisoned =>
      rw [attempted] at rest
      exact rest
  | drop => exact disciplined.elim

/-- More answers do not change an attempt that has completed. -/
theorem attempt_mono {script : Script Unit} {facts later : FactStore}
    {writes : List (FactKey × FactValue)} {errors : List SemanticError}
    (grows : ∀ key value, facts.get? key = some (.known value) →
      later.get? key = some (.known value))
    (completed : script.attempt facts = .completed writes errors) :
    script.attempt later = .completed writes errors := by
  induction script generalizing writes errors with
  | done result => exact completed
  | read key next ih =>
    simp only [attempt] at completed ⊢
    cases found : facts.get? key with
    | none => simp [found] at completed
    | some slot =>
      cases slot with
      | known value =>
        rw [found] at completed
        rw [grows key value found]
        exact ih value completed
      | poisoned => simp [found] at completed
  | write key value next ih =>
    simp only [attempt, addWrite_eq_completed_iff] at completed ⊢
    obtain ⟨rest, attempted, rfl⟩ := completed
    exact ⟨rest, ih attempted, rfl⟩
  | report error next ih =>
    simp only [attempt] at completed ⊢
    cases attempted : next.attempt facts with
    | completed rest found =>
      rw [attempted] at completed
      rw [ih attempted, completed]
    | missing key => simp [attempted, Attempt.addError] at completed
    | poisoned => simp [attempted, Attempt.addError] at completed
  | drop => simp [attempt] at completed

end Script

end BoxScript
