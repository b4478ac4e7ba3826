import BoxScript.Proofs.Rules.Solving

/-!
# The effect of a settled rule

A rule that is settled leaves a slot in the store for each question that it writes an answer to, or,
if it failed, for each question that it was to answer, and it leaves its errors behind
(`Attempt.slot?`, `Attempt.errors`).

A script looks at a store only through the slots that it reads. So an attempt at it either waits, or
comes to the same under every store that has more slots (`Script.attempt_within`). This is the one
fact about scripts from which the order of rules turns out not to matter.
-/

set_option autoImplicit false

namespace BoxScript

/-- Every number is the code of a question. -/
theorem FactKey.code_ofCode (code : Nat) : (FactKey.ofCode code).code = code := by
  have small : code % 4 = 0 ∨ code % 4 = 1 ∨ code % 4 = 2 ∨ code % 4 = 3 := by omega
  rcases small with kind | kind | kind | kind <;>
    simp only [FactKey.code, ofCode, kind, FactKind.ofCode, FactKind.code] <;> omega

namespace FactStore

/-! ## Stores with more slots -/

/-- Whether the slots of a store are all slots of another one, with the same content. -/
def Within (facts later : FactStore) : Prop :=
  ∀ key slot, facts.get? key = some slot → later.get? key = some slot

theorem Within.refl (facts : FactStore) : facts.Within facts := by
  intro key slot here
  exact here

theorem Within.trans {facts later last : FactStore} (first : facts.Within later)
    (second : later.Within last) : facts.Within last := by
  intro key slot here
  exact second key slot (first key slot here)

/-- Whether two stores have the same slots. -/
def Same (facts other : FactStore) : Prop :=
  ∀ key, facts.get? key = other.get? key

theorem Same.symm {facts other : FactStore} (same : facts.Same other) : other.Same facts := by
  intro key
  exact (same key).symm

theorem Same.within {facts other : FactStore} (same : facts.Same other) : facts.Within other := by
  intro key slot here
  rw [← same key]
  exact here

theorem Within.antisymm {facts other : FactStore} (first : facts.Within other)
    (second : other.Within facts) : facts.Same other := by
  intro key
  cases here : facts.get? key with
  | some slot => exact (first key slot here).symm
  | none =>
    cases there : other.get? key with
    | none => rfl
    | some slot =>
      rw [second key slot there] at here
      cases here

/-- Stores with the same slots list the same answers. -/
theorem Same.toList_eq {facts other : FactStore} (same : facts.Same other) :
    facts.toList = other.toList := by
  have equivalent : facts.slots.Equiv other.slots := by
    apply Std.TreeMap.Equiv.of_forall_constGet?_eq
    intro code
    have here := same (.ofCode code)
    simp only [get?, FactKey.code_ofCode] at here
    exact here
  unfold toList
  rw [equivalent.toList_eq]

theorem get?_poisonAll (facts : FactStore) (keys : List FactKey) (key : FactKey) :
    (facts.poisonAll keys).get? key =
      if key ∈ keys then some ((facts.get? key).getD .poisoned) else facts.get? key := by
  induction keys generalizing facts with
  | nil => simp [poisonAll]
  | cons first rest ih =>
    change ((facts.poison first).poisonAll rest).get? key = _
    rw [ih, get?_poison]
    by_cases same : first = key
    · subst same
      by_cases later : first ∈ rest <;> simp [later]
    · by_cases later : key ∈ rest <;> simp [later, same, Ne.symm same]

end FactStore

/-! ## What an attempt leaves behind -/

namespace Attempt

open FactStore

/-- Whether an attempt came to nothing because an answer is missing. -/
def isWaiting : Attempt → Bool
  | missing _ => true
  | _ => false

/-- The slot that an attempt at a rule leaves for a question, if it leaves one. -/
def slot? (produces : List FactKey) (key : FactKey) : Attempt → Option Slot
  | completed writes [] => (lastWrite? key writes).map .known
  | completed _ (_ :: _) | poisoned => if key ∈ produces then some .poisoned else none
  | missing _ => none

/-- The errors that an attempt leaves. -/
def errors : Attempt → List SemanticError
  | completed _ errors => errors
  | _ => []

variable {attempt : Attempt} {produces : List FactKey} {key : FactKey}

theorem slot?_of_isWaiting (waits : attempt.isWaiting = true) :
    attempt.slot? produces key = none := by
  cases attempt <;> first | rfl | cases waits

theorem errors_of_isWaiting (waits : attempt.isWaiting = true) : attempt.errors = [] := by
  cases attempt <;> first | rfl | cases waits

/-- An attempt leaves slots for the questions of its rule only, if it writes answers to no
others. -/
theorem mem_of_slot? {slot : Slot}
    (answers : ∀ writes errors, attempt = .completed writes errors →
      ∀ write ∈ writes, write.1 ∈ produces)
    (left : attempt.slot? produces key = some slot) : key ∈ produces := by
  cases attempt with
  | completed writes errors =>
    cases errors with
    | nil =>
      simp only [slot?, Option.map_eq_some_iff] at left
      obtain ⟨value, written, _⟩ := left
      exact answers writes [] rfl _ (mem_of_lastWrite? written)
    | cons error rest =>
      by_contra outside
      simp [slot?, outside] at left
  | missing key => cases left
  | poisoned =>
    by_contra outside
    simp [slot?, outside] at left

end Attempt

namespace Script

/-- An attempt waits, or comes to the same when there are more slots. -/
theorem attempt_within {script : Script Unit} {facts later : FactStore}
    (within : facts.Within later) :
    (script.attempt facts).isWaiting = true ∨ script.attempt later = script.attempt facts := by
  induction script with
  | done result => exact .inr rfl
  | read key next ih =>
    simp only [attempt]
    cases here : facts.get? key with
    | none => exact .inl rfl
    | some slot =>
      rw [within key slot here]
      cases slot with
      | known value => exact ih value
      | poisoned => exact .inr rfl
  | write key value next ih =>
    simp only [attempt]
    rcases ih with waits | same
    · left
      cases attempted : next.attempt facts <;> rw [attempted] at waits <;>
        first | rfl | cases waits
    · right
      rw [same]
  | report error next ih =>
    simp only [attempt]
    rcases ih with waits | same
    · left
      cases attempted : next.attempt facts <;> rw [attempted] at waits <;>
        first | rfl | cases waits
    · right
      rw [same]
  | drop => exact .inr rfl

end Script

/-! ## Rules whose effects are there -/

namespace Rule

variable {symbols : SymbolTable} {rule : Rule} {facts later : FactStore}

/-- Whether a rule is a script. -/
def IsScripted (symbols : SymbolTable) (rule : Rule) : Prop :=
  ∃ script : Script Unit, ∀ facts, rule.attempt symbols facts = script.attempt facts

/-- Whether a rule waits under a store. -/
def Waits (symbols : SymbolTable) (facts : FactStore) (rule : Rule) : Prop :=
  (rule.attempt symbols facts).isWaiting = true

/-- Whether the slots that a rule leaves under a store are in the store. A rule that waits leaves
none. -/
def Closed (symbols : SymbolTable) (facts : FactStore) (rule : Rule) : Prop :=
  ∀ key slot, (rule.attempt symbols facts).slot? rule.produces key = some slot →
    facts.get? key = some slot

theorem closed_of_waits (waits : rule.Waits symbols facts) : rule.Closed symbols facts := by
  intro key slot left
  rw [Attempt.slot?_of_isWaiting waits] at left
  cases left

/-- A rule that holds has its effects in the store. -/
theorem closed_of_holds {notes : Annotations} (holds : rule.Holds notes) :
    rule.Closed notes.symbols notes.facts := by
  obtain ⟨writes, completed, has⟩ := holds
  intro key slot left
  rw [completed] at left
  simp only [Attempt.slot?, Option.map_eq_some_iff] at left
  obtain ⟨value, written, rfl⟩ := left
  exact has key value written

theorem IsScripted.attempt_eq (scripted : rule.IsScripted symbols) (within : facts.Within later)
    (ends : ¬ rule.Waits symbols facts) :
    rule.attempt symbols later = rule.attempt symbols facts := by
  obtain ⟨script, attempt⟩ := scripted
  unfold Waits at ends
  rw [attempt] at ends
  rw [attempt, attempt]
  exact (Script.attempt_within within).resolve_left ends

/-- Rules do not wait for what they have waited for before, once it is there. -/
theorem IsScripted.not_waits (scripted : rule.IsScripted symbols) (within : facts.Within later)
    (ends : ¬ rule.Waits symbols facts) : ¬ rule.Waits symbols later := by
  unfold Waits
  rw [scripted.attempt_eq within ends]
  exact ends

/-- Under stores with the same slots, a rule waits in both or in neither. -/
theorem IsScripted.waits_iff (scripted : rule.IsScripted symbols) (same : facts.Same later) :
    rule.Waits symbols facts ↔ rule.Waits symbols later := by
  constructor
  · intro waits
    by_contra ends
    exact scripted.not_waits same.symm.within ends waits
  · intro waits
    by_contra ends
    exact scripted.not_waits same.within ends waits

/-- Under stores with the same slots, an attempt leaves the same errors. -/
theorem IsScripted.errors_eq (scripted : rule.IsScripted symbols) (same : facts.Same later) :
    (rule.attempt symbols facts).errors = (rule.attempt symbols later).errors := by
  by_cases waits : rule.Waits symbols facts
  · rw [Attempt.errors_of_isWaiting waits,
      Attempt.errors_of_isWaiting ((scripted.waits_iff same).mp waits)]
  · rw [scripted.attempt_eq same.within waits]

end Rule

end BoxScript
