import BoxScript.Proofs.Rules.Confluence

/-!
# What rules ask and what they answer

A rule is confined to a set of questions when it asks no others, whatever the answers are
(`Rule.Confined`). It owes answers to some of the questions that it is to answer: if it neither
fails nor waits, it has answered these at its end. So once all that it may ask has a slot, it does
not wait, and what it owes has a slot as well (`Rule.Confined.filled`).
-/

set_option autoImplicit false

namespace BoxScript

namespace Script

/-- A script that asks questions of one set and answers questions of another one. It is dropped, or
it ends with a property of the questions that have been answered and of its result. A script that
reports an error counts as one that has answered all of them: they are poisoned then. Being stuck is
for the solver to report, and not for a script. -/
def Confined {α : Type} (asks answers : FactKey → Prop) :
    Script α → (FactKey → Prop) → ((FactKey → Prop) → α → Prop) → Prop
  | done result, given, post => post given result
  | read key next, given, post =>
    asks key ∧ ∀ value, (next value).Confined asks answers given post
  | write key _ next, given, post =>
    answers key ∧ next.Confined asks answers (fun other => other = key ∨ given other) post
  | report error next, _, post =>
    (∀ what, error.cause ≠ .unresolved (.stuck what)) ∧
      next.Confined asks answers (fun _ => True) post
  | drop, _, _ => True

section Calculus

variable {asks answers given : FactKey → Prop}

theorem confined_bind {α β : Type} {script : Script α} {f : α → Script β}
    {post : (FactKey → Prop) → β → Prop} :
    (script >>= f).Confined asks answers given post ↔
      script.Confined asks answers given fun later a => (f a).Confined asks answers later post := by
  change (script.bind f).Confined asks answers given post ↔ _
  induction script generalizing given with
  | done result => rfl
  | read key next ih => simp only [bind, Confined, ih]
  | write key value next ih => simp only [bind, Confined, ih]
  | report error next ih => simp only [bind, Confined, ih]
  | drop => rfl

@[simp]
theorem confined_pure {α : Type} {a : α} {post : (FactKey → Prop) → α → Prop} :
    (pure a : Script α).Confined asks answers given post ↔ post given a := Iff.rfl

@[simp]
theorem confined_error {cause : SemanticError.Cause} {span : Span}
    {post : (FactKey → Prop) → Unit → Prop} :
    (error cause span).Confined asks answers given post ↔
      (∀ what, cause ≠ .unresolved (.stuck what)) ∧ post (fun _ => True) () := Iff.rfl

@[simp]
theorem confined_drop {α : Type} {post : (FactKey → Prop) → α → Prop} :
    (drop : Script α).Confined asks answers given post := trivial

@[simp]
theorem confined_typeOf {node : NodeId} {post : (FactKey → Prop) → Ty → Prop} :
    (typeOf node).Confined asks answers given post ↔
      asks ⟨node, .type⟩ ∧ ∀ ty, post given ty := by
  constructor
  · rintro ⟨asked, each⟩
    exact ⟨asked, fun ty => each (.type ty)⟩
  · rintro ⟨asked, each⟩
    refine ⟨asked, ?_⟩
    rintro (ty | id | value)
    · exact each ty
    · trivial
    · trivial

@[simp]
theorem confined_declTypeOf {node : NodeId} {post : (FactKey → Prop) → Ty → Prop} :
    (declTypeOf node).Confined asks answers given post ↔
      asks ⟨node, .declType⟩ ∧ ∀ ty, post given ty := by
  constructor
  · rintro ⟨asked, each⟩
    exact ⟨asked, fun ty => each (.type ty)⟩
  · rintro ⟨asked, each⟩
    refine ⟨asked, ?_⟩
    rintro (ty | id | value)
    · exact each ty
    · trivial
    · trivial

@[simp]
theorem confined_declOf {node : NodeId} {post : (FactKey → Prop) → DeclId → Prop} :
    (declOf node).Confined asks answers given post ↔
      asks ⟨node, .decl⟩ ∧ ∀ id, post given id := by
  constructor
  · rintro ⟨asked, each⟩
    exact ⟨asked, fun id => each (.decl id)⟩
  · rintro ⟨asked, each⟩
    refine ⟨asked, ?_⟩
    rintro (ty | id | value)
    · trivial
    · exact each id
    · trivial

@[simp]
theorem confined_returnsOf {node : NodeId} {post : (FactKey → Prop) → Bool → Prop} :
    (returnsOf node).Confined asks answers given post ↔
      asks ⟨node, .returns⟩ ∧ ∀ value, post given value := by
  constructor
  · rintro ⟨asked, each⟩
    exact ⟨asked, fun value => each (.flag value)⟩
  · rintro ⟨asked, each⟩
    refine ⟨asked, ?_⟩
    rintro (ty | id | value)
    · trivial
    · trivial
    · exact each value

@[simp]
theorem confined_setType {node : NodeId} {ty : Ty} {post : (FactKey → Prop) → Unit → Prop} :
    (setType node ty).Confined asks answers given post ↔
      answers ⟨node, .type⟩ ∧ post (fun key => key = ⟨node, .type⟩ ∨ given key) () := Iff.rfl

@[simp]
theorem confined_setDeclType {node : NodeId} {ty : Ty} {post : (FactKey → Prop) → Unit → Prop} :
    (setDeclType node ty).Confined asks answers given post ↔
      answers ⟨node, .declType⟩ ∧ post (fun key => key = ⟨node, .declType⟩ ∨ given key) () :=
  Iff.rfl

@[simp]
theorem confined_setDecl {node : NodeId} {id : DeclId} {post : (FactKey → Prop) → Unit → Prop} :
    (setDecl node id).Confined asks answers given post ↔
      answers ⟨node, .decl⟩ ∧ post (fun key => key = ⟨node, .decl⟩ ∨ given key) () := Iff.rfl

@[simp]
theorem confined_setReturns {node : NodeId} {value : Bool}
    {post : (FactKey → Prop) → Unit → Prop} :
    (setReturns node value).Confined asks answers given post ↔
      answers ⟨node, .returns⟩ ∧ post (fun key => key = ⟨node, .returns⟩ ∨ given key) () :=
  Iff.rfl

theorem confined_mapM {α β : Type} {script : α → Script β} {as : List α}
    {post : (FactKey → Prop) → List β → Prop}
    (each : ∀ a ∈ as, ∀ {next : (FactKey → Prop) → β → Prop}, (∀ b, next given b) →
      (script a).Confined asks answers given next)
    (after : ∀ bs, post given bs) : (as.mapM script).Confined asks answers given post := by
  induction as generalizing post with
  | nil => exact after []
  | cons a as ih =>
    rw [List.mapM_cons, confined_bind]
    apply each a List.mem_cons_self
    intro b
    rw [confined_bind]
    apply ih (fun a member => each a (List.mem_cons_of_mem _ member))
    intro bs
    exact after (b :: bs)

/-! ## Attempts -/

/-- An attempt does not wait when all that the script may ask has a slot. -/
theorem Confined.not_isWaiting {script : Script Unit} {post : (FactKey → Prop) → Unit → Prop}
    {facts : FactStore} (confined : script.Confined asks answers given post)
    (filled : ∀ key, asks key → (facts.get? key).isSome = true) :
    (script.attempt facts).isWaiting = false := by
  induction script generalizing given with
  | done result => rfl
  | read key next ih =>
    obtain ⟨asked, each⟩ := confined
    simp only [attempt]
    obtain ⟨slot, here⟩ := Option.isSome_iff_exists.mp (filled key asked)
    rw [here]
    cases slot with
    | known value => exact ih value (each value)
    | poisoned => rfl
  | write key value next ih =>
    have rest := ih confined.2
    simp only [attempt]
    cases attempted : next.attempt facts <;> rw [attempted] at rest <;> first | rfl | exact rest
  | report error next ih =>
    have rest := ih confined.2
    simp only [attempt]
    cases attempted : next.attempt facts <;> rw [attempted] at rest <;> first | rfl | exact rest
  | drop => rfl

/-- What an attempt waits for is something that the script may ask. -/
theorem Confined.asks_of_missing {script : Script Unit} {post : (FactKey → Prop) → Unit → Prop}
    {facts : FactStore} {key : FactKey} (confined : script.Confined asks answers given post)
    (waits : script.attempt facts = .missing key) : asks key := by
  induction script generalizing given with
  | done result => cases waits
  | read other next ih =>
    simp only [attempt] at waits
    split at waits
    · cases waits
      exact confined.1
    · cases waits
    · exact ih _ (confined.2 _) waits
  | write other value next ih =>
    simp only [attempt] at waits
    cases attempted : next.attempt facts <;> rw [attempted] at waits <;> cases waits
    exact ih confined.2 attempted
  | report error next ih =>
    simp only [attempt] at waits
    cases attempted : next.attempt facts <;> rw [attempted] at waits <;> cases waits
    exact ih confined.2 attempted
  | drop => cases waits

/-- An attempt that completes answers only what the script may answer. -/
theorem Confined.write_answers {script : Script Unit} {post : (FactKey → Prop) → Unit → Prop}
    {facts : FactStore} {writes : List (FactKey × FactValue)} {errors : List SemanticError}
    (confined : script.Confined asks answers given post)
    (completed : script.attempt facts = .completed writes errors) :
    ∀ write ∈ writes, answers write.1 := by
  induction script generalizing given writes errors with
  | done result =>
    cases completed
    simp
  | read key next ih =>
    simp only [attempt] at completed
    split at completed
    · cases completed
    · cases completed
    · rename_i value _
      exact ih value (confined.2 value) completed
  | write key value next ih =>
    simp only [attempt, addWrite_eq_completed_iff] at completed
    obtain ⟨rest, completed, rfl⟩ := completed
    exact List.forall_mem_cons.mpr ⟨confined.1, ih confined.2 completed⟩
  | report error next ih =>
    simp only [attempt] at completed
    cases attempted : next.attempt facts with
    | completed others found =>
      rw [attempted] at completed
      cases completed
      exact ih confined.2 attempted
    | missing key =>
      rw [attempted] at completed
      cases completed
    | poisoned =>
      rw [attempted] at completed
      cases completed
  | drop => cases completed

/-- An attempt reports no rule as stuck. -/
theorem Confined.errors_own {script : Script Unit} {post : (FactKey → Prop) → Unit → Prop}
    {facts : FactStore} (confined : script.Confined asks answers given post) :
    ∀ error ∈ (script.attempt facts).errors, ∀ what, error.cause ≠ .unresolved (.stuck what) := by
  induction script generalizing given with
  | done result => simp [attempt, Attempt.errors]
  | read key next ih =>
    simp only [attempt]
    split
    · simp [Attempt.errors]
    · simp [Attempt.errors]
    · exact ih _ (confined.2 _)
  | write key value next ih =>
    have rest := ih confined.2
    simp only [attempt]
    cases attempted : next.attempt facts <;> rw [attempted] at rest <;> exact rest
  | report error next ih =>
    have rest := ih confined.2
    simp only [attempt]
    cases attempted : next.attempt facts with
    | completed writes errors =>
      rw [attempted] at rest
      exact List.forall_mem_cons.mpr ⟨confined.1, rest⟩
    | missing key => simp [Attempt.addError, Attempt.errors]
    | poisoned => simp [Attempt.addError, Attempt.errors]
  | drop => simp [attempt, Attempt.errors]

/-- What has been answered at the end of a script without errors has been answered before, or is
among its writes. -/
theorem Confined.given_of_result {script : Script Unit} {post : (FactKey → Prop) → Unit → Prop}
    {facts : FactStore} {writes : List (FactKey × FactValue)}
    (confined : script.Confined asks answers given post)
    (result : script.result? facts = some ((), writes)) :
    ∃ final, post final () ∧ ∀ key, final key → given key ∨ key ∈ writes.map (·.1) := by
  induction script generalizing given writes with
  | done result => exact ⟨given, confined, fun key here => .inl here⟩
  | read key next ih =>
    simp only [result?] at result
    split at result
    · exact ih _ (confined.2 _) result
    · cases result
  | write key value next ih =>
    obtain ⟨rest, later, rfl⟩ := result?_write_eq_some.mp result
    obtain ⟨final, holds, known⟩ := ih confined.2 later
    refine ⟨final, holds, fun other here => ?_⟩
    rcases known other here with (rfl | before) | written
    · exact .inr List.mem_cons_self
    · exact .inl before
    · exact .inr (List.mem_cons_of_mem _ written)
  | report error next _ => cases result
  | drop => cases result

end Calculus

end Script

namespace FactStore

theorem isSome_lastWrite? {key : FactKey} {writes : List (FactKey × FactValue)}
    (written : key ∈ writes.map (·.1)) : (lastWrite? key writes).isSome = true := by
  induction writes with
  | nil => cases written
  | cons first rest ih =>
    rw [lastWrite?, Option.isSome_or, Bool.or_eq_true]
    rcases List.mem_cons.mp written with rfl | later
    · exact .inr (by simp)
    · exact .inl (ih later)

/-- Whether a question has a slot. -/
def Filled (facts : FactStore) (key : FactKey) : Prop :=
  (facts.get? key).isSome = true

end FactStore

namespace Rule

/-- A rule that asks questions of a set only, answers its own questions only, and has answered those
that it owes when it ends without an error. -/
structure Confined (symbols : SymbolTable) (asks : FactKey → Prop) (owes : List FactKey)
    (rule : Rule) : Prop where
  owned : owes ⊆ rule.produces
  scripted : ∃ script : Script Unit,
    (∀ facts, rule.attempt symbols facts = script.attempt facts) ∧
      script.Confined asks (· ∈ rule.produces) (fun _ => False) fun given _ =>
        ∀ key ∈ owes, given key

variable {symbols : SymbolTable} {asks : FactKey → Prop} {owes produces : List FactKey}
  {rule : Rule} {facts : FactStore}

theorem Confined.isScripted (confined : rule.Confined symbols asks owes) :
    rule.IsScripted symbols := by
  obtain ⟨script, attempt, _⟩ := confined.scripted
  exact ⟨script, attempt⟩

theorem Confined.answers (confined : rule.Confined symbols asks owes)
    {writes : List (FactKey × FactValue)} {errors : List SemanticError}
    (completed : rule.attempt symbols facts = .completed writes errors) :
    ∀ write ∈ writes, write.1 ∈ rule.produces := by
  obtain ⟨script, attempt, inside⟩ := confined.scripted
  rw [attempt] at completed
  exact inside.write_answers completed

theorem Confined.asks_of_missing (confined : rule.Confined symbols asks owes) {key : FactKey}
    (waits : rule.attempt symbols facts = .missing key) : asks key := by
  obtain ⟨script, attempt, inside⟩ := confined.scripted
  rw [attempt] at waits
  exact inside.asks_of_missing waits

theorem Confined.errors_own (confined : rule.Confined symbols asks owes) :
    ∀ error ∈ (rule.attempt symbols facts).errors,
      ∀ what, error.cause ≠ .unresolved (.stuck what) := by
  obtain ⟨script, attempt, inside⟩ := confined.scripted
  rw [attempt]
  exact inside.errors_own

/-- A rule does not wait when all that it may ask has a slot. -/
theorem Confined.not_waits (confined : rule.Confined symbols facts.Filled owes) :
    ¬ rule.Waits symbols facts := by
  obtain ⟨script, attempt, inside⟩ := confined.scripted
  unfold Waits
  rw [attempt, inside.not_isWaiting fun key asked => asked]
  exact Bool.false_ne_true

/-- When all that a rule may ask has a slot, and the effects of the rule are there, what it owes has
a slot. -/
theorem Confined.filled (confined : rule.Confined symbols facts.Filled owes)
    (closed : rule.Closed symbols facts) : ∀ key ∈ owes, facts.Filled key := by
  intro key owed
  have ends := confined.not_waits
  have produced : key ∈ rule.produces := confined.owned owed
  obtain ⟨script, attempt, inside⟩ := confined.scripted
  have slot : ∃ slot, (rule.attempt symbols facts).slot? rule.produces key = some slot := by
    unfold Waits at ends
    cases attempted : rule.attempt symbols facts with
    | missing other =>
      rw [attempted] at ends
      exact absurd rfl ends
    | poisoned => exact ⟨.poisoned, if_pos produced⟩
    | completed writes errors =>
      cases errors with
      | cons error others => exact ⟨.poisoned, if_pos produced⟩
      | nil =>
        rw [attempt, Script.attempt_eq_completed_iff] at attempted
        obtain ⟨final, answered, known⟩ := inside.given_of_result attempted
        have written := (known key (answered key owed)).resolve_left id
        obtain ⟨value, last⟩ :=
          Option.isSome_iff_exists.mp (FactStore.isSome_lastWrite? written)
        exact ⟨.known value, by simp only [Attempt.slot?, last, Option.map_some]⟩
  obtain ⟨slot, left⟩ := slot
  unfold FactStore.Filled
  rw [closed key slot left]
  rfl

theorem confined_ofScript {what : String} {span : Span} {script : SymbolTable → Script Unit}
    (owned : owes ⊆ produces)
    (inside : (script symbols).Confined asks (· ∈ produces) (fun _ => False) fun given _ =>
      ∀ key ∈ owes, given key) :
    (ofScript produces what span script).Confined symbols asks owes :=
  ⟨owned, script symbols, fun _ => rfl, inside⟩

end Rule

end BoxScript
